import Testbus.Server.Effects

namespace Testbus.Server

open Lib Testbus.Environ

section Chains

variable {w w' : World}

/-- The value of a name in the first container of a chain that has one. -/
def chainValue (chain : List (Addr × Container)) (name : CString) : Option CString :=
  chain.findSome? fun above => getenv above.2.env name

/-- Containers that are still there, with the same parents and the same variables. -/
def World.Keeps (w w' : World) : Prop :=
  ∀ c old, w.heap.cells c = some old → ∃ new, w'.heap.cells c = some new ∧
    new.parent = old.parent ∧ ∀ name, getenv new.env name = getenv old.env name

/-- The same containers lie above one, and say the same. -/
theorem ancestors_keep (keeps : w.Keeps w') (walked : ancestors w levels c = .ok chain) (more : Nat) :
    ∃ chain', ancestors w' (levels + more) c = .ok chain' ∧ chain'.map Prod.fst = chain.map Prod.fst ∧
      ∀ name, chainValue chain' name = chainValue chain name := by
  induction levels generalizing c chain with
  | zero => cases walked
  | succ levels ih =>
    obtain ⟨old, read, rest⟩ := bind_ok.mp walked
    obtain ⟨new, found, parent, values⟩ := keeps c old (World.deref_ok.mp read)
    rw [Nat.succ_add]
    cases above : old.parent with
    | none =>
      simp only [above] at rest
      cases rest
      refine ⟨[(c, new)], ?_, rfl, fun name => by simp [chainValue, values]⟩
      refine bind_ok.mpr ⟨new, World.deref_ok.mpr found, ?_⟩
      simp only [parent, above]
    | some p =>
      simp only [above] at rest
      obtain ⟨higher, walked', same⟩ := bind_ok.mp rest
      cases same
      obtain ⟨higher', walked'', addrs, later⟩ := ih walked'
      refine ⟨(c, new) :: higher', ?_, congrArg (c :: ·) addrs, fun name => ?_⟩
      · refine bind_ok.mpr ⟨new, World.deref_ok.mpr found, ?_⟩
        simp only [parent, above]
        exact bind_ok.mpr ⟨higher', walked'', rfl⟩
      · have later := later name
        simp only [chainValue, List.findSome?_cons, values] at later ⊢
        rw [later]

/-- A merge sorts the environments that it reads. -/
def World.sortEnv (w : World) (c : Addr) : World :=
  w.modify c fun self => if self.env.vars.length ≠ 0 then { self with env := envSort self.env } else self

theorem sortEnv_alike (w : World) (c : Addr) : w.Alike (w.sortEnv c) := by
  refine World.Alike.modify (fun self => ?_) fun self _ full => ?_
  · split <;> rfl
  · split
    · exact full_sort full
    · exact full

theorem sortAll_alike (w : World) (addrs : List Addr) : w.Alike (addrs.foldl World.sortEnv w) := by
  induction addrs generalizing w with
  | nil => exact World.Alike.refl w
  | cons c rest ih => exact (sortEnv_alike w c).trans (ih (w.sortEnv c))

theorem sortAll_keeps (addrs : List Addr) (full : ∀ {c self}, w.heap.cells c = some self → self.env.Full) :
    w.Keeps (addrs.foldl World.sortEnv w) := by
  induction addrs generalizing w with
  | nil => exact fun _ _ found => ⟨_, found, rfl, fun _ => rfl⟩
  | cons x rest ih =>
    have alike := sortEnv_alike w x
    have later : (w.sortEnv x).Keeps (rest.foldl World.sortEnv (w.sortEnv x)) := by
      refine ih fun {c self} found => ?_
      obtain ⟨old, found', _⟩ := alike.back found
      exact alike.envs found found' (full found')
    intro c old found
    have here : ∃ new, (w.sortEnv x).heap.cells c = some new ∧ new.parent = old.parent ∧
        ∀ name, getenv new.env name = getenv old.env name := by
      rw [World.sortEnv, World.cells_modify_heap, Store.cells_modify]
      split
      · rw [found, Option.map_some]
        refine ⟨_, rfl, ?_, fun name => ?_⟩
        · split <;> rfl
        · split
          · simp only [getenv, (valid_sort (full found).valid).2.2 name]
          · rfl
      · exact ⟨old, found, rfl, fun _ => rfl⟩
    obtain ⟨middle, found', parent, values⟩ := here
    obtain ⟨new, found'', parent', values'⟩ := later c middle found'
    exact ⟨new, found'', parent'.trans parent, fun name => (values' name).trans (values name)⟩

end Chains

section Apply

variable {c command host process : Addr}

theorem applyContext_ok (steady : Steady w) (found : w.heap.cells c = some self) (own : env.Full) :
    ∃ chain merged w', ancestors w (w.next + 1) c = .ok chain ∧
      applyContext c env w = .ok (merged, w') ∧ w.Alike w' ∧ w.Keeps w' ∧ merged.Full ∧
      ∀ name, getenv merged name = (getenv env name).or (chainValue chain name) := by
  obtain ⟨chain, walked, cells⟩ := steady.settled.chain_ok found
  have fulls : ∀ env ∈ chain.map fun above => above.2.env, env.Full := by
    intro env member
    obtain ⟨above, inside, rfl⟩ := List.mem_map.mp member
    exact steady.envs (cells above inside)
  obtain ⟨merged, ran, full, values⟩ := containerMerge_full own fulls
  have ran : containerMergeEnvironment (chain.map fun above => some above.2.env) env = .ok merged := by
    simpa [List.map_map, Function.comp_def] using ran
  refine ⟨chain, merged, (chain.map Prod.fst).foldl World.sortEnv w, walked, ?_,
    sortAll_alike w _, sortAll_keeps _ steady.envs, full, fun name => ?_⟩
  · refine bind_ok.mpr ⟨chain, walked, ?_⟩
    simp only [ran]
    rfl
  · rw [values, List.findSome?_cons, List.findSome?_map]
    cases getenv env name <;> rfl

/-- After the context of the command and that of the host. -/
theorem processApplyContext_ok (steady : Steady w) (found : w.heap.cells process = some self)
    (foundC : w.heap.cells command = some commandSelf) (foundH : w.heap.cells host = some hostSelf) :
    ∃ above beyond w', ancestors w (w.next + 1) command = .ok above ∧ ancestors w (w.next + 1) host = .ok beyond ∧
      processApplyContext process command host w = .ok w' ∧ w.Alike w' ∧
      ∃ new, w'.heap.cells process = some new ∧ new.env.Full ∧
        ∀ name, getenv new.env name =
          ((getenv self.env name).or (chainValue above name)).or (chainValue beyond name) := by
  obtain ⟨above, first, w₁, walked, applied, alike₁, keeps₁, full, values⟩ :=
    applyContext_ok steady foundC (steady.envs found)
  obtain ⟨hostSelf₁, foundH₁, _⟩ := alike₁.forth foundH
  obtain ⟨beyond₁, second, w₂, walked₁, applied', alike₂, _, full', values'⟩ :=
    applyContext_ok (steady.alike alike₁) foundH₁ full
  obtain ⟨beyond, walked', _⟩ := steady.settled.chain_ok foundH
  obtain ⟨other, walkedOther, _, same⟩ := ancestors_keep keeps₁ walked' 0
  rw [Nat.add_zero, ← alike₁.next, walked₁] at walkedOther
  cases walkedOther
  obtain ⟨process₂, found₂, _⟩ := (alike₁.trans alike₂).forth found
  have last : w₂.Alike (w₂.modify process fun self => { self with env := second }) :=
    World.Alike.modify (fun _ => rfl) fun _ _ _ => full'
  refine ⟨above, beyond, _, walked, walked', ?_, (alike₁.trans alike₂).trans last,
    { process₂ with env := second }, by simp [found₂], full', fun name => ?_⟩
  · refine bind_ok.mpr ⟨self, World.deref_ok.mpr found, ?_⟩
    exact bind_ok.mpr ⟨_, applied, bind_ok.mpr ⟨_, applied', rfl⟩⟩
  · rw [values', values, same]

end Apply

end Testbus.Server
