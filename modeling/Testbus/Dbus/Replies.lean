import Testbus.Dbus.Dispatch

namespace Testbus.Dbus.Dispatch

open Lib

/-- How often a call was replied to. -/
def State.replies (s : State) (call : Nat) : Nat := s.sent.countP fun sent => sent.1 = call

/-- The script for a call has not exited yet. -/
def State.Running (s : State) (call : Nat) : Prop := call ∈ s.asyncServerCalls.map AsyncServerCall.call

instance (s : State) (call : Nat) : Decidable (s.Running call) :=
  inferInstanceAs (Decidable (_ ∈ _))

/-- Each call has one reply, or none while its script runs. -/
def State.Answered (s : State) : Prop :=
  ∀ call < s.next, s.replies call = if s.Running call then 0 else 1

instance (s : State) : Decidable s.Answered :=
  inferInstanceAs (Decidable (∀ call < s.next, s.replies call = if s.Running call then 0 else 1))

/-- The script of a method is found, and a process for it starts. -/
structure Starts (config : List Extension) (interface : CString) (method : Method)
    (course : Course) : Prop where
  script : ∃ extension, findExtension config interface = some extension ∧
    method.name ∈ extension.actions
  files : course.argfile = true ∧ course.retfile = true
  forked : ∃ pid, course.run = .forked pid

/-- When a handler is called and fails, a reply can be made of its error. -/
def Tells (lib : Libdbus) (method : Method) (course : Course) : Prop :=
  course.argsRead = true → (method.handlerEx = true → ∃ uid, course.callerUid = .ok uid) →
    course.rv = false → ∀ error ∈ course.error, lib.accepts error = true

/-- No script fails to start, and a reply can be made of the errors of handlers and scripts. -/
def Answerable (lib : Libdbus) (config : List Extension) (s : State) : Input → Prop
  | .deliver object message course => ∀ interface member svc method, message.methodCall = true →
      message.interface = some interface → message.member = some member →
      getService object interface = some svc →
      methodOf object svc member message course = .ok method →
      if method.handler = true ∨ method.handlerEx = true then Tells lib method course
      else Starts config interface method course
  | .exited pid exit => (∃ process ∈ s.processQueue, process.pid = pid) → exit.okay = false →
      ∀ node ∈ exit.doc.bind Document.errorNode, lib.accepts (serializeError node) = true

variable {reply : Option Reply}

section Errors

variable {object : Object} {message : Message} {error : DBusError} {name : ErrorName}
  {text : String}

theorem own_setError (own : ∀ given, name ≠ .given given) : (setError name text args).Own := ⟨own, nofun⟩

theorem newError_own (own : error.Own) : newError lib error = some (.error error) := if_pos (lib.own error own)

theorem newError_setError (own : ∀ given, name ≠ .given given) :
    newError lib (setError name text args) = some (.error (setError name text args)) := newError_own (own_setError own)

theorem isSome_newError : (newError lib error).isSome = lib.accepts error := by
  unfold newError
  split
  · rename_i accepted
    exact accepted.symm
  · rename_i refused
    exact (Bool.eq_false_iff.mpr refused).symm

theorem own_methodOf (failed : methodOf object svc member message course = .error error) : error.Own := by
  unfold methodOf at failed
  split at failed
  · cases failed
    exact own_setError nofun
  split at failed
  · cases failed
    exact own_setError nofun
  split at failed
  · cases failed
    exact own_setError nofun
  split at failed
  · cases failed
    exact own_setError nofun
  · cases failed

/-- A handler leaves the dispatcher with a reply, unless it fails with an error that none can be
made of. -/
theorem callHandler_reply {rv : Bool} {error : Option DBusError}
    (called : callHandler object svc member method course = (rv, reply, error)) :
    (if rv then reply else newError lib (error.getD unexpected)).isSome = true ↔
      Tells lib method course := by
  unfold callHandler at called
  unfold Tells
  by_cases unread : course.argsRead = false
  · rw [if_pos unread] at called
    cases called
    simp [unread, newError_setError]
  · rw [if_neg unread] at called
    rw [Bool.not_eq_false] at unread
    split at called
    · rename_i ex uid
      cases called
      simp [ex, uid, newError_setError]
    · rename_i ok
      cases called
      have known : method.handlerEx = true → ∃ uid, course.callerUid = .ok uid := by
        intro ex
        cases uid : course.callerUid with
        | ok caller => exact ⟨caller, rfl⟩
        | error err => exact (ok err ex uid).elim
      cases rv : course.rv with
      | true => simp
      | false =>
        cases set : course.error with
        | none => simp [unexpected, newError_setError]
        | some error =>
          constructor
          · intro accepted _ _ _ other same
            obtain rfl := Option.some.inj same
            exact isSome_newError.symm.trans accepted
          · intro tells
            exact isSome_newError.trans (tells unread known rfl error rfl)

end Errors

section Delivery

variable {object : Object} {message : Message} {s s' : State}

/-- What the delivery of a call comes to: replies at once, or a script that runs. -/
inductive Delivered (s : State) (fine : Prop) : State → Prop
  | replied {s' : State} (replies : List Reply)
      (sent : s'.sent = s.sent ++ replies.map fun reply => (s.next, reply))
      (next : s'.next = s.next + 1) (calls : s'.asyncServerCalls = s.asyncServerCalls)
      (addr : s.addr ≤ s'.addr)
      (queue : s'.processQueue = s.processQueue ∨ ¬ fine ∧ s'.addr = s.addr + 1 ∧
        s'.processQueue = { addr := s.addr, freed := true } :: s.processQueue)
      (once : fine ↔ replies.length = 1) : Delivered s fine s'
  | started {s' : State} (async : AsyncServerCall) (pid : Nat) (sent : s'.sent = s.sent)
      (next : s'.next = s.next + 1) (call : async.call = s.next) (process : async.subProcess = s.addr)
      (calls : s'.asyncServerCalls = async :: s.asyncServerCalls) (addr : s'.addr = s.addr + 1)
      (queue : s'.processQueue = { addr := s.addr, pid } :: s.processQueue)
      (started : fine) : Delivered s fine s'

/-- The addresses of the processes in the wait queue were given out. -/
def State.Allocated (s : State) : Prop := ∀ process ∈ s.processQueue, process.addr < s.addr

theorem free_others (allocated : s.Allocated) :
    (s.processQueue.map fun process =>
      if process.addr = s.addr then { process with freed := true } else process) =
        s.processQueue := by
  conv_rhs => rw [← List.map_id s.processQueue]
  refine List.map_congr_left fun other member => ?_
  exact if_neg (Nat.ne_of_lt (allocated other member))

theorem delivered_twice (own : ∀ given, name ≠ .given given) (bad : ¬ fine) (more : s.addr ≤ addr)
    (waiting : queue = s.processQueue ∨ addr = s.addr + 1 ∧ queue = { addr := s.addr, freed := true } :: s.processQueue) :
    Delivered s fine (finish lib s.next false none none (sendError lib s.next (setError name text args)
      { s with next := s.next + 1, addr, processQueue := queue })) := by
  have script : newError lib (setError name text args) = some _ := newError_setError own
  have failed : newError lib unexpected = some (.error unexpected) := newError_setError nofun
  refine .replied [.error (setError name text args), .error unexpected] ?_ rfl rfl more
    (waiting.imp_right fun front => ⟨bad, front⟩) ?_
  · simp [finish, sendError, sendMessage, script, failed]
  · exact ⟨fun good => absurd good bad, nofun⟩

theorem extensionCall_delivered (allocated : s.Allocated) {result : Bool × State}
    (ran : extensionCall lib config object interface method s.next course
      { s with next := s.next + 1 } = result) :
    Delivered s (Starts config interface method course) (finish lib s.next result.1 none none result.2) := by
  unfold extensionCall at ran
  split at ran
  · rename_i unknown
    cases ran
    refine delivered_twice (by nofun) (fun starts => ?_) (Nat.le_refl _) (Or.inl rfl)
    obtain ⟨_, found, _⟩ := starts.script
    rw [unknown] at found
    cases found
  rename_i extension known
  split at ran
  · rename_i missing
    cases ran
    refine delivered_twice (by nofun) (fun starts => ?_) (Nat.le_refl _) (Or.inl rfl)
    obtain ⟨_, found, member⟩ := starts.script
    obtain rfl := Option.some.inj (known.symm.trans found)
    exact missing member
  rename_i member
  rw [not_not] at member
  simp only at ran
  split at ran
  · rename_i none_
    cases ran
    refine delivered_twice (by nofun) (fun starts => ?_) (Nat.le_succ _) (Or.inl rfl)
    exact absurd (starts.files.1.symm.trans none_) nofun
  rename_i argfile
  split at ran
  · rename_i none_
    cases ran
    refine delivered_twice (by nofun) (fun starts => ?_) (Nat.le_succ _) (Or.inl rfl)
    exact absurd (starts.files.2.symm.trans none_) nofun
  rename_i retfile
  cases run : course.run with
  | failed =>
    simp only [run, asyncServerCallRunCommand] at ran
    cases ran
    refine delivered_twice (by nofun) (fun starts => ?_) (Nat.le_succ s.addr) (Or.inl (free_others allocated))
    obtain ⟨pid, forked⟩ := starts.forked
    cases run.symm.trans forked
  | unforked =>
    simp only [run, asyncServerCallRunCommand] at ran
    cases ran
    have queue := congrArg ({ addr := s.addr, freed := true } :: ·) (free_others allocated)
    refine delivered_twice (by nofun) (fun starts => ?_) (Nat.le_succ s.addr)
      (Or.inr ⟨rfl, (congrArg (· :: _) (if_pos rfl)).trans queue⟩)
    obtain ⟨pid, forked⟩ := starts.forked
    cases run.symm.trans forked
  | forked pid =>
    simp only [run, asyncServerCallRunCommand] at ran
    cases ran
    refine .started _ pid ?_ rfl rfl rfl rfl rfl rfl
      ⟨⟨extension, known, member⟩, ⟨by simpa using argfile, by simpa using retfile⟩, pid, run⟩
    simp [finish, sendMessage]

theorem Delivered.congr {fine' : Prop} (same : fine ↔ fine') (delivered : Delivered s fine s') :
    Delivered s fine' s' := by
  rwa [← propext same]

theorem finish_delivered {rv : Bool} {error : Option DBusError}
    (once : (if rv then reply else newError lib (error.getD unexpected)).isSome = true ↔ fine) :
    Delivered s fine (finish lib s.next rv reply error { s with next := s.next + 1 }) := by
  refine .replied (if rv then reply else newError lib (error.getD unexpected)).toList ?_ rfl rfl
    (Nat.le_refl _) (Or.inl rfl) ?_
  · simp only [finish, sendMessage]
    cases (if rv then reply else newError lib (error.getD unexpected)) <;> rfl
  · rw [← once]
    cases (if rv then reply else newError lib (error.getD unexpected)) <;> simp

/-- The call of an object with the interface is decided by the method alone. -/
theorem answerable_iff (typed : message.methodCall = true)
    (hasInterface : message.interface = some interface) (hasMember : message.member = some member)
    (known : getService object interface = some svc) :
    Answerable lib config s (.deliver object message course) ↔
      ∀ method, methodOf object svc member message course = .ok method →
        if method.handler = true ∨ method.handlerEx = true then Tells lib method course
        else Starts config interface method course := by
  constructor
  · intro answerable method found
    exact answerable interface member svc method typed hasInterface hasMember known found
  · intro fine interface' member' svc' method _ hasInterface' hasMember' known' found
    obtain rfl := Option.some.inj (hasInterface.symm.trans hasInterface')
    obtain rfl := Option.some.inj (hasMember.symm.trans hasMember')
    obtain rfl := Option.some.inj (known.symm.trans known')
    exact fine method found

/-- A call that the dispatcher takes has its reply, or a script that runs, unless a script does not
start or a handler's error cannot be sent. -/
theorem objectMessage_delivered (allocated : s.Allocated)
    (taken : objectMessage lib config object message course s = some s') :
    Delivered s (Answerable lib config s (.deliver object message course)) s' := by
  unfold objectMessage at taken
  split at taken
  · rename_i interface member typed hasInterface hasMember
    split at taken
    · cases taken
    rename_i svc known
    refine Delivered.congr (answerable_iff typed hasInterface hasMember known).symm ?_
    simp only at taken
    cases found : methodOf object svc member message course with
    | error error =>
      rw [found] at taken
      cases taken
      refine finish_delivered ⟨fun _ => nofun, fun _ => ?_⟩
      exact isSome_newError.trans (lib.own error (own_methodOf found))
    | ok method =>
      have one {fine : Prop} (same : fine ↔ if method.handler = true ∨ method.handlerEx = true then
          Tells lib method course else Starts config interface method course) :
          fine ↔ ∀ other, (.ok method : Except DBusError Method) = .ok other →
            if other.handler = true ∨ other.handlerEx = true then Tells lib other course
            else Starts config interface other course :=
        ⟨fun holds _ same' => Except.ok.inj same' ▸ same.mp holds, fun all => same.mpr (all method rfl)⟩
      rw [found] at taken
      simp only at taken
      split at taken
      · rename_i handled
        cases taken
        refine finish_delivered (one ?_)
        rw [if_pos handled]
        exact callHandler_reply rfl
      · rename_i unhandled
        cases taken
        exact (extensionCall_delivered allocated rfl).congr (one (by rw [if_neg unhandled]))
  · cases taken

/-- What libdbus is left to answer is no call to a method of an interface of the object. -/
theorem answerable_untaken (untaken : objectMessage lib config object message course s = none) :
    Answerable lib config s (.deliver object message course) := by
  intro interface member svc method typed hasInterface hasMember known found
  simp only [objectMessage, typed, hasInterface, hasMember, known, found] at untaken
  split at untaken <;> cases untaken

end Delivery

section Exit

variable {exit : Exit} {pid : Nat} {queue rest : List Process}

theorem extensionCompletion_isSome : (extensionCompletion lib async exit).isSome = true ↔
    (exit.okay = false → ∀ node ∈ exit.doc.bind Document.errorNode, lib.accepts (serializeError node) = true) := by
  unfold extensionCompletion
  cases okay : exit.okay with
  | true =>
    refine iff_of_true ?_ nofun
    rw [if_pos rfl]
    split
    · rfl
    split
    · rw [newError_setError (by nofun)]
      rfl
    split
    · rfl
    · rw [newError_setError (by nofun)]
      rfl
  | false =>
    rw [if_neg nofun]
    split
    · rename_i node found
      rw [isSome_newError, found]
      exact ⟨fun accepted _ other same => Option.some.inj same ▸ accepted, fun all => all rfl node rfl⟩
    · rename_i found
      rw [newError_setError (by nofun), found]
      exact ⟨fun _ _ _ => nofun, fun _ => rfl⟩

/-- The process that is taken has that number, and the others stay. -/
theorem takeProcess_some (taken : takeProcess pid queue = .ok (some process, rest)) :
    ∃ before after, queue = before ++ process :: after ∧ rest = before ++ after ∧
      process.pid = pid ∧ process.freed = false := by
  induction queue generalizing rest with
  | nil => cases taken
  | cons first later ih =>
    unfold takeProcess at taken
    split at taken
    · cases taken
    rename_i alive
    split at taken
    · rename_i here
      cases taken
      exact ⟨[], later, rfl, rfl, here, by simpa using alive⟩
    · obtain ⟨⟨found, rest'⟩, again, same⟩ := bind_ok.mp taken
      cases same
      obtain ⟨before, after, rfl, rfl, facts⟩ := ih again
      exact ⟨first :: before, after, rfl, rfl, facts⟩

theorem takeProcess_none (taken : takeProcess pid queue = .ok (none, rest)) :
    rest = queue ∧ ∀ process ∈ queue, process.pid ≠ pid := by
  induction queue generalizing rest with
  | nil =>
    cases taken
    exact ⟨rfl, nofun⟩
  | cons first later ih =>
    unfold takeProcess at taken
    split at taken
    · cases taken
    split at taken
    · cases taken
    · rename_i other
      obtain ⟨⟨found, rest'⟩, again, same⟩ := bind_ok.mp taken
      cases same
      obtain ⟨rfl, others⟩ := ih again
      exact ⟨rfl, List.forall_mem_cons.mpr ⟨other, others⟩⟩

end Exit

/-- What holds between the events, whatever was replied. -/
structure Inv (s : State) : Prop where
  calls : ∀ async ∈ s.asyncServerCalls, async.call < s.next ∧ s.replies async.call = 0
  distinct : (s.asyncServerCalls.map AsyncServerCall.call).Nodup
  sent : ∀ sent ∈ s.sent, sent.1 < s.next
  allocated : s.Allocated
  apart : (s.processQueue.map Process.addr).Nodup
  linked : ∀ process ∈ s.processQueue, process.freed = false →
    process.addr ∈ s.asyncServerCalls.map AsyncServerCall.subProcess

section Run

variable {s s' : State} {input : Input}

theorem Inv.initial : Inv {} where
  calls := nofun
  distinct := List.nodup_nil
  sent := nofun
  allocated := nofun
  apart := List.nodup_nil
  linked := nofun

theorem Inv.unsent (inv : Inv s) : s.replies s.next = 0 := by
  refine List.countP_eq_zero.mpr fun sent member same => ?_
  exact absurd (of_decide_eq_true same) (Nat.ne_of_lt (inv.sent sent member))

theorem Inv.not_running (inv : Inv s) : ¬ s.Running s.next := by
  intro running
  obtain ⟨async, member, same⟩ := List.mem_map.mp running
  exact absurd same (Nat.ne_of_lt (inv.calls async member).1)

theorem replies_append (replies : List Reply) (origin : Nat)
    (sent : s'.sent = s.sent ++ replies.map fun reply => (origin, reply)) (call : Nat) :
    s'.replies call = s.replies call + if origin = call then replies.length else 0 := by
  rw [State.replies, sent, List.countP_append, List.countP_map]
  refine congrArg _ ?_
  split
  · rename_i same
    exact List.countP_eq_length.mpr fun _ _ => decide_eq_true same
  · rename_i other
    exact List.countP_eq_zero.mpr fun _ _ same => other (of_decide_eq_true same)

theorem Inv.enqueue (inv : Inv s) (here : process.addr = s.addr)
    (addr : s'.addr = s.addr + 1) (queue : s'.processQueue = process :: s.processQueue) :
    s'.Allocated ∧ (s'.processQueue.map Process.addr).Nodup := by
  constructor
  · intro other member
    rw [queue] at member
    rw [addr]
    rcases List.mem_cons.mp member with rfl | before
    · exact here ▸ Nat.lt_succ_self _
    · exact Nat.lt_succ_of_lt (inv.allocated other before)
  · rw [queue]
    refine List.nodup_cons.mpr ⟨fun member => ?_, inv.apart⟩
    obtain ⟨other, before, same⟩ := List.mem_map.mp member
    exact absurd (same.trans here) (Nat.ne_of_lt (inv.allocated other before))

theorem Inv.replied {replies : List Reply} (inv : Inv s)
    (sent : s'.sent = s.sent ++ replies.map fun reply => (s.next, reply))
    (next : s'.next = s.next + 1) (calls : s'.asyncServerCalls = s.asyncServerCalls)
    (allocated : s'.Allocated) (apart : (s'.processQueue.map Process.addr).Nodup)
    (queue : ∀ process ∈ s'.processQueue, process.freed = false → process ∈ s.processQueue) : Inv s' where
  calls async member := by
    rw [calls] at member
    obtain ⟨less, zero⟩ := inv.calls async member
    rw [next, replies_append replies s.next sent, if_neg (Nat.ne_of_gt less), zero]
    exact ⟨Nat.lt_succ_of_lt less, rfl⟩
  distinct := calls ▸ inv.distinct
  sent one member := by
    rw [sent] at member
    rw [next]
    rcases List.mem_append.mp member with before | now
    · exact Nat.lt_succ_of_lt (inv.sent one before)
    · obtain ⟨_, _, rfl⟩ := List.mem_map.mp now
      exact Nat.lt_succ_self _
  allocated := allocated
  apart := apart
  linked process member alive := calls ▸ inv.linked process (queue process member alive) alive

/-- The call that was just taken decides whether all are answered. -/
theorem answered_next (next : s'.next = s.next + 1)
    (old : ∀ call < s.next, s'.replies call = s.replies call ∧ (s'.Running call ↔ s.Running call)) :
    s'.Answered ↔ s.Answered ∧ s'.replies s.next = if s'.Running s.next then 0 else 1 := by
  have same : ∀ call < s.next, (s'.replies call = if s'.Running call then 0 else 1) ↔
      (s.replies call = if s.Running call then 0 else 1) := by
    intro call less
    obtain ⟨count, running⟩ := old call less
    rw [count]
    simp only [running]
  unfold State.Answered
  rw [next]
  constructor
  · intro all
    exact ⟨fun call less => (same call less).mp (all call (Nat.lt_succ_of_lt less)), all s.next (Nat.lt_succ_self _)⟩
  · rintro ⟨before, last⟩ call less
    rcases Nat.lt_succ_iff_lt_or_eq.mp less with earlier | rfl
    · exact (same call earlier).mpr (before call earlier)
    · exact last

theorem Inv.delivered (inv : Inv s) (delivered : Delivered s fine s') : Inv s' ∧ (s'.Answered ↔ s.Answered ∧ fine) := by
  cases delivered with
  | replied replies sent next calls addr queue once =>
    have count := replies_append replies s.next sent
    constructor
    · rcases queue with same | ⟨_, more, cons⟩
      · refine inv.replied sent next calls (fun process member => ?_) (same ▸ inv.apart)
          fun process member _ => same ▸ member
        exact Nat.lt_of_lt_of_le (inv.allocated process (same ▸ member)) addr
      · obtain ⟨allocated, apart⟩ := inv.enqueue rfl more cons
        refine inv.replied sent next calls allocated apart fun process member alive => ?_
        rw [cons] at member
        refine (List.mem_cons.mp member).resolve_left ?_
        rintro rfl
        cases alive
    · have running (call : Nat) : s'.Running call ↔ s.Running call := by
        rw [State.Running, State.Running, calls]
      rw [answered_next next fun call less =>
        ⟨by rw [count, if_neg (Nat.ne_of_gt less), Nat.add_zero], running call⟩, once]
      refine and_congr_right fun _ => ?_
      rw [if_neg fun now => inv.not_running ((running s.next).mp now), count, if_pos rfl, inv.unsent, Nat.zero_add]
  | started async pid sent next call process calls addr queue started =>
    have count : ∀ call, s'.replies call = s.replies call := fun call => by
      rw [State.replies, State.replies, sent]
    obtain ⟨allocated, apart⟩ := inv.enqueue rfl addr queue
    constructor
    · refine ⟨?_, ?_, ?_, allocated, apart, ?_⟩
      · intro other member
        rw [calls] at member
        rw [next, count]
        rcases List.mem_cons.mp member with rfl | before
        · exact ⟨call ▸ Nat.lt_succ_self _, call ▸ inv.unsent⟩
        · exact ⟨Nat.lt_succ_of_lt (inv.calls other before).1, (inv.calls other before).2⟩
      · rw [calls]
        exact List.nodup_cons.mpr ⟨call ▸ inv.not_running, inv.distinct⟩
      · intro one member
        rw [sent] at member
        rw [next]
        exact Nat.lt_succ_of_lt (inv.sent one member)
      · intro other member alive
        rw [queue] at member
        rw [calls, List.map_cons]
        rcases List.mem_cons.mp member with rfl | before
        · exact process ▸ List.mem_cons_self
        · exact List.mem_cons_of_mem _ (inv.linked other before alive)
    · have running (other : Nat) : s'.Running other ↔ other = s.next ∨ s.Running other := by
        rw [State.Running, calls, List.map_cons, List.mem_cons, call]
        rfl
      rw [answered_next next fun other less =>
        ⟨count other, (running other).trans (or_iff_right (Nat.ne_of_lt less))⟩]
      refine and_congr_right fun _ => iff_of_true ?_ started
      rw [if_pos ((running s.next).mpr (Or.inl rfl)), count, inv.unsent]

/-- A running call that ends with a reply is answered, and the others are as they were. -/
theorem Inv.answered_exit (inv : Inv s) (split : s.asyncServerCalls = first ++ async :: last)
    (calls : s'.asyncServerCalls = first ++ last) (next : s'.next = s.next)
    (count : ∀ call, s'.replies call = s.replies call + if async.call = call then reply.toList.length else 0) :
    s'.Answered ↔ s.Answered ∧ reply.isSome = true := by
  have member : async ∈ s.asyncServerCalls := by simp [split]
  obtain ⟨less, zero⟩ := inv.calls async member
  have distinct := inv.distinct
  rw [split, List.map_append, List.map_cons, List.nodup_middle] at distinct
  have gone : ¬ s'.Running async.call := by
    rw [State.Running, calls, List.map_append]
    exact (List.nodup_cons.mp distinct).1
  have running (call : Nat) (other : call ≠ async.call) : s'.Running call ↔ s.Running call := by
    simp only [State.Running, calls, split, List.map_append, List.map_cons, List.mem_append,
      List.mem_cons, other, false_or]
  have others (call : Nat) (other : call ≠ async.call) :
      (s'.replies call = if s'.Running call then 0 else 1) ↔ (s.replies call = if s.Running call then 0 else 1) := by
    rw [count, if_neg (Ne.symm other), Nat.add_zero]
    simp only [running call other]
  have this : (s'.replies async.call = if s'.Running async.call then 0 else 1) ↔ reply.isSome = true := by
    rw [count, if_pos rfl, if_neg gone, zero]
    cases reply <;> simp
  have before : s.replies async.call = if s.Running async.call then 0 else 1 := by
    have runs : s.Running async.call := List.mem_map_of_mem member
    rw [zero, if_pos runs]
  unfold State.Answered
  rw [next]
  constructor
  · intro all
    refine ⟨fun call within => ?_, this.mp (all async.call less)⟩
    by_cases same : call = async.call
    · exact same ▸ before
    · exact (others call same).mp (all call within)
  · rintro ⟨all, some_⟩ call within
    by_cases same : call = async.call
    · exact same ▸ this.mpr some_
    · exact (others call same).mpr (all call within)

theorem Inv.exit (inv : Inv s)
    (queue : s.processQueue = before ++ process :: after) (sub : async.subProcess = process.addr)
    (split : s.asyncServerCalls = first ++ async :: last)
    (count : ∀ call, (sendMessage async.call reply
        { s with processQueue := before ++ after, asyncServerCalls := first ++ last }).replies call =
      s.replies call + if async.call = call then reply.toList.length else 0) :
    Inv (sendMessage async.call reply
      { s with processQueue := before ++ after, asyncServerCalls := first ++ last }) where
  calls other member := by
    have inside : other ∈ s.asyncServerCalls := by
      rw [split]
      exact List.mem_append.mpr ((List.mem_append.mp member).imp_right (List.mem_cons_of_mem _))
    have distinct := inv.distinct
    rw [split, List.map_append, List.map_cons, List.nodup_middle] at distinct
    have apart : async.call ≠ other.call := by
      intro same
      refine (List.nodup_cons.mp distinct).1 ?_
      rw [same, ← List.map_append]
      exact List.mem_map_of_mem member
    rw [count, if_neg apart]
    exact inv.calls other inside
  distinct := by
    have distinct := inv.distinct
    rw [split, List.map_append, List.map_cons, List.nodup_middle, ← List.map_append] at distinct
    exact (List.nodup_cons.mp distinct).2
  sent one member := by
    rcases List.mem_append.mp member with before | now
    · exact inv.sent one before
    · obtain ⟨_, _, rfl⟩ := List.mem_map.mp (Option.toList_map .. ▸ now)
      exact (inv.calls async (by simp [split])).1
  allocated other member := by
    refine inv.allocated other ?_
    rw [queue]
    exact List.mem_append.mpr ((List.mem_append.mp member).imp_right (List.mem_cons_of_mem _))
  apart := by
    have apart := inv.apart
    rw [queue, List.map_append, List.map_cons, List.nodup_middle, ← List.map_append] at apart
    exact (List.nodup_cons.mp apart).2
  linked other member alive := by
    have apart := inv.apart
    rw [queue, List.map_append, List.map_cons, List.nodup_middle, ← List.map_append] at apart
    have different : other.addr ≠ async.subProcess := by
      intro same
      refine (List.nodup_cons.mp apart).1 ?_
      rw [← sub, ← same]
      exact List.mem_map_of_mem member
    have inside : other ∈ s.processQueue := by
      rw [queue]
      exact List.mem_append.mpr ((List.mem_append.mp member).imp_right (List.mem_cons_of_mem _))
    have link := inv.linked other inside alive
    rw [split, List.map_append, List.map_cons, List.mem_append, List.mem_cons] at link
    change other.addr ∈ (first ++ last).map AsyncServerCall.subProcess
    rw [List.map_append, List.mem_append]
    exact link.imp_right fun either => either.resolve_left different

/-- The exit of a script has its call replied to, if a reply can be made. -/
theorem Inv.callback (lib : Libdbus)
    (exit : Exit) (inv : Inv s) (queue : s.processQueue = before ++ process :: after) (alive : process.freed = false) :
    ∃ async ∈ s.asyncServerCalls,
      Inv (asyncServerCallCallback lib process.addr exit { s with processQueue := before ++ after }) ∧
      ((asyncServerCallCallback lib process.addr exit
          { s with processQueue := before ++ after }).Answered ↔
        s.Answered ∧ (extensionCompletion lib async exit).isSome = true) := by
  have inside : process ∈ s.processQueue := by simp [queue]
  obtain ⟨async, looked⟩ : ∃ async, s.asyncServerCalls.find? (fun async =>
      async.subProcess = process.addr) = some async := by
    obtain ⟨async, member, same⟩ := List.mem_map.mp (inv.linked process inside alive)
    exact Option.isSome_iff_exists.mp (List.find?_isSome.mpr ⟨async, member, by simpa using same⟩)
  obtain ⟨sub, first, last, split, skipped⟩ := List.find?_eq_some_iff_append.mp looked
  have erased : s.asyncServerCalls.eraseP (fun async => async.subProcess = process.addr) = first ++ last := by
    rw [split, List.eraseP_append_right _ fun other member => by simpa using skipped other member, List.eraseP_cons, sub]
    rfl
  have count := fun call => @replies_append s (sendMessage async.call (extensionCompletion lib async exit)
      { s with processQueue := before ++ after, asyncServerCalls := first ++ last })
    (extensionCompletion lib async exit).toList async.call
    (congrArg (s.sent ++ ·) Option.toList_map) call
  refine ⟨async, by simp [split], ?_⟩
  simp only [asyncServerCallCallback, looked, erased]
  exact ⟨inv.exit queue (by simpa using sub) split count, inv.answered_exit split rfl rfl count⟩

theorem Inv.step (inv : Inv s) (moved : step lib config s input = .ok s') :
    Inv s' ∧ (s'.Answered ↔ s.Answered ∧ Answerable lib config s input) := by
  cases input with
  | deliver object message course =>
    simp only [Dispatch.step] at moved
    split at moved
    · cases moved
      cases taken : objectMessage lib config object message course s with
      | none => exact ⟨inv, (and_iff_left (answerable_untaken taken)).symm⟩
      | some s' => exact inv.delivered (objectMessage_delivered inv.allocated taken)
    · cases moved
  | exited pid exit =>
    simp only [Dispatch.step] at moved
    split at moved
    · cases moved
    obtain ⟨⟨found, rest⟩, taken, moved⟩ := bind_ok.mp moved
    cases found with
    | none =>
      cases moved
      obtain ⟨rfl, others⟩ := takeProcess_none taken
      refine ⟨inv, (and_iff_left ?_).symm⟩
      rintro ⟨process, member, same⟩
      exact absurd same (others process member)
    | some process =>
      cases moved
      obtain ⟨before, after, queue, rfl, number, alive⟩ := takeProcess_some taken
      obtain ⟨async, _, kept, answered⟩ := inv.callback lib exit queue alive
      refine ⟨kept, answered.trans (and_congr_right fun _ => ?_)⟩
      rw [extensionCompletion_isSome]
      exact ⟨fun sends _ => sends, fun all => all ⟨process, by simp [queue], number⟩⟩

end Run

section Clean

variable {input : Input} {pid : Nat} {queue rest : List Process}

/-- No process in the wait queue was freed. -/
def State.Clean (s : State) : Prop := ∀ process ∈ s.processQueue, process.freed = false

theorem State.Clean.delivered (clean : s.Clean) (good : fine) (delivered : Delivered s fine s') : s'.Clean := by
  intro process member
  cases delivered with
  | replied replies sent next calls addr queue once =>
    rcases queue with same | ⟨bad, _⟩
    · exact clean process (same ▸ member)
    · exact absurd good bad
  | started async pid sent next call here calls addr queue started =>
    rw [queue] at member
    rcases List.mem_cons.mp member with rfl | before
    · rfl
    · exact clean process before

theorem State.Clean.stepped (clean : s.Clean) (inv : Inv s) (fine : Answerable lib config s input)
    (moved : step lib config s input = .ok s') : s'.Clean := by
  cases input with
  | deliver object message course =>
    simp only [Dispatch.step] at moved
    split at moved
    · cases moved
      cases taken : objectMessage lib config object message course s with
      | none => exact clean
      | some s' => exact clean.delivered fine (objectMessage_delivered inv.allocated taken)
    · cases moved
  | exited pid exit =>
    simp only [Dispatch.step] at moved
    split at moved
    · cases moved
    obtain ⟨⟨found, rest⟩, taken, moved⟩ := bind_ok.mp moved
    cases found with
    | none =>
      cases moved
      obtain ⟨rfl, _⟩ := takeProcess_none taken
      exact clean
    | some process =>
      cases moved
      obtain ⟨before, after, queue, rfl, _, _⟩ := takeProcess_some taken
      intro other member
      have inside : other ∈ before ++ after := by
        unfold asyncServerCallCallback at member
        split at member
        · exact member
        · exact member
      refine clean other ?_
      rw [queue]
      exact List.mem_append.mpr ((List.mem_append.mp inside).imp_right (List.mem_cons_of_mem _))

end Clean

end Testbus.Dbus.Dispatch
