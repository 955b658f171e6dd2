import Testbus.Server.Answering

namespace Testbus.Server

open Lib Testbus.Environ

variable {command host : Addr}

/-- A process has what the first of these containers says that says anything about a name: its
command, what is above that, its host, and what is above the host. -/
theorem process_environment_first (reachable : Reachable w)
    (foundC : w.heap.cells command = some commandSelf) (kindC : commandSelf.kind = .command)
    (foundH : w.heap.cells host = some hostSelf) (kindH : hostSelf.kind = .host) :
    ∃ process w₁ w₂ self above beyond,
      processNew host command w = .ok (process, w₁) ∧
      processApplyContext process command host w₁ = .ok w₂ ∧
      w₂.heap.cells process = some self ∧ (names self.env.vars).Nodup ∧
      ancestors w (w.next + 1) command = .ok above ∧ ancestors w (w.next + 1) host = .ok beyond ∧
      ∀ name, getenv self.env name =
        (above ++ beyond).findSome? fun container => getenv container.2.env name := by
  have steady := reachable.steady
  obtain ⟨new, made, kind, commandNew, env, fresh⟩ := processNew_ok steady foundC kindC foundH kindH
  have steady₁ := steady.insert fresh
  have keeps := insert_keeps steady.settled fresh
  have apart : host ≠ (w.take new.command).next := by
    rw [next_take]
    exact Nat.ne_of_lt (steady.settled.wf.bound (kind_graph foundH))
  have there : ((w.take new.command).insert host hostSelf new).heap.cells w.next = some new := by
    have here : ((w.take new.command).insert host hostSelf new).heap.cells
        (w.take new.command).next = some new := insert_self apart
    rwa [next_take] at here
  obtain ⟨commandSelf₁, foundC₁, _⟩ := keeps command commandSelf foundC
  obtain ⟨hostSelf₁, foundH₁, _⟩ := keeps host hostSelf foundH
  obtain ⟨above₁, beyond₁, w₂, walkedC₁, walkedH₁, applied, _, self, found, full, values⟩ :=
    processApplyContext_ok steady₁ there foundC₁ foundH₁
  -- The new process is above neither its command nor its host.
  obtain ⟨above, walkedC, _⟩ := steady.settled.chain_ok foundC
  obtain ⟨beyond, walkedH, _⟩ := steady.settled.chain_ok foundH
  obtain ⟨_, walkedC', _, sameC⟩ := ancestors_keep keeps walkedC 1
  obtain ⟨_, walkedH', _, sameH⟩ := ancestors_keep keeps walkedH 1
  have next : ((w.take new.command).insert host hostSelf new).next + 1 = w.next + 1 + 1 :=
    congrArg (· + 1 + 1) (next_take w new.command)
  rw [next, walkedC'] at walkedC₁
  rw [next, walkedH'] at walkedH₁
  cases walkedC₁
  cases walkedH₁
  rw [← commandNew] at made
  refine ⟨w.next, _, w₂, self, above, beyond, made, applied, found, full.valid.distinct, walkedC,
    walkedH, fun name => ?_⟩
  have own : getenv new.env name = none := by rw [env]; rfl
  rw [values, own, Option.none_or, sameC, sameH, List.findSome?_append]
  rfl

def processTree : List Request :=
  [.nameOwnerChanged (ascii ['a']) (ascii ['a']),
    .createHost (ascii ['h']) (ascii ['a']) 0,
    .createTest globalContextPath (ascii ['t']),
    .createCommand (childPath globalContextPath (ascii ['T', 'e', 's', 't', '0'])),
    .setenv globalContextPath (ascii ['X']) (ascii ['0']),
    .setenv (childPath hostlistPath (ascii ['H', 'o', 's', 't', '0'])) (ascii ['X']) (ascii ['1'])]

theorem process_environment_first_run : ∃ w, Reachable w ∧ ∃ process w₁ w₂ self above beyond,
    processNew 1 3 w = .ok (process, w₁) ∧ processApplyContext process 3 1 w₁ = .ok w₂ ∧
    w₂.heap.cells process = some self ∧ (names self.env.vars).Nodup ∧
    ancestors w (w.next + 1) 3 = .ok above ∧ ancestors w (w.next + 1) 1 = .ok beyond ∧
    ∀ name, getenv self.env name =
      (above ++ beyond).findSome? fun container => getenv container.2.env name := by
  obtain ⟨w, ran, kinds⟩ := Machine.run_view step World.initial processTree
    (fun w => ((w.heap.cells 3).map Container.kind, (w.heap.cells 1).map Container.kind))
    (some .command, some .host) (by decide +kernel)
  obtain ⟨kindC, kindH⟩ := Prod.mk.inj kinds
  obtain ⟨command, foundC, isCommand⟩ := Option.map_eq_some_iff.mp kindC
  obtain ⟨host, foundH, isHost⟩ := Option.map_eq_some_iff.mp kindH
  exact ⟨w, ⟨processTree, ran⟩,
    process_environment_first ⟨processTree, ran⟩ foundC isCommand foundH isHost⟩

end Testbus.Server
