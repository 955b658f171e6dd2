import Testbus.Util.Stringbuf

namespace Testbus.Util

open Lib Cells
open Xml (newline blank trimTail trimHead trimEmptyLines)

/-- The blank bytes at the end: the loop stops behind the first line end among them. -/
theorem tailLines_run (blanks : ∀ cc ∈ run, blank cc = true)
    (stops : ∀ cc, front.getLast? = some cc → blank cc = false) (behind : Bytes) (trim : Nat) :
    tailLines (front ++ run ++ behind) (front.length + run.length) trim =
      .ok (((run.findIdx? newline).map (front.length + · + 1)).getD trim) := by
  induction run using List.reverseRecOn generalizing behind trim with
  | nil =>
    rw [List.append_nil, List.length_nil, Nat.add_zero]
    cases front using List.reverseRecOn with
    | nil => rfl
    | append_singleton front cc =>
      have nonblank := stops cc List.getLast?_concat
      have other : newline cc = false := by
        rw [blank, Bool.or_eq_false_iff, Bool.or_eq_false_iff] at nonblank
        exact nonblank.1.1
      have here : load (front ++ [cc] ++ behind) front.length = .ok cc := by
        rw [List.append_assoc, List.singleton_append, load, List.getElem?_append_right (Nat.le_refl _), Nat.sub_self]
        rfl
      rw [List.length_append, List.length_singleton, tailLines, here]
      simp only [bind, Except.bind, nonblank, other]
      rfl
  | append_singleton run cc ih =>
    have blanks' : ∀ cc ∈ run, blank cc = true := fun cc mem =>
      blanks cc (List.mem_append_left _ mem)
    have here : load (front ++ (run ++ [cc]) ++ behind) (front.length + run.length) = .ok cc := by
      rw [← List.append_assoc, List.append_assoc, List.singleton_append, load,
        List.getElem?_append_right (by rw [List.length_append]), List.length_append, Nat.sub_self]
      rfl
    have isBlank := blanks cc (List.mem_append_right _ (List.mem_singleton_self cc))
    have before := ih blanks' (cc :: behind)
    rw [List.append_cons] at before
    rw [List.length_append, List.length_singleton, ← Nat.add_assoc, tailLines, here, List.findIdx?_append]
    by_cases end_ : newline cc = true
    · simp only [bind, Except.bind, end_, if_true]
      rw [← List.append_assoc, before]
      cases run.findIdx? newline with
      | none => simp [end_]
      | some i => rfl
    · simp only [bind, Except.bind, end_, isBlank, if_true]
      rw [← List.append_assoc]
      refine (before trim).trans ?_
      cases run.findIdx? newline with
      | none => simp [end_]
      | some i => rfl

/-- The blank bytes at the start: the loop stops behind the last line end among them. -/
theorem headLines_run (done todo behind : Bytes) (trim : Nat) :
    ∃ n, headLines (done ++ todo ++ behind) todo.length done.length trim = .ok n ∧
      (n = trim ∧ (∀ cc ∈ todo.takeWhile blank, newline cc = false) ∨
        ∃ before cc after, todo.takeWhile blank = before ++ cc :: after ∧ newline cc = true ∧
          (∀ cc ∈ after, newline cc = false) ∧ n = done.length + before.length + 1) := by
  induction todo generalizing done trim with
  | nil => exact ⟨trim, rfl, .inl ⟨rfl, by simp⟩⟩
  | cons cc todo ih =>
    have here : load (done ++ cc :: todo ++ behind) done.length = .ok cc := by
      rw [List.append_assoc, load, List.getElem?_append_right (Nat.le_refl _), Nat.sub_self]
      rfl
    have next := ih (done ++ [cc])
    rw [List.append_assoc done, List.singleton_append, List.length_append, List.length_singleton] at next
    rw [List.length_cons, headLines, here]
    by_cases end_ : newline cc = true
    · have isBlank : blank cc = true := by rw [blank, end_]; rfl
      obtain ⟨n, looped, result⟩ := next (done.length + 1)
      simp only [bind, Except.bind, end_, if_true]
      rw [List.takeWhile_cons_of_pos isBlank]
      refine ⟨n, looped, .inr ?_⟩
      rcases result with ⟨rfl, none_⟩ | ⟨before, last, after, run, isEnd, none_, rfl⟩
      · exact ⟨[], cc, _, rfl, end_, none_, rfl⟩
      · refine ⟨cc :: before, last, after, by rw [run]; rfl, isEnd, none_, ?_⟩
        rw [List.length_cons]
        omega
    · simp only [bind, Except.bind, end_]
      by_cases isBlank : blank cc = true
      · obtain ⟨n, looped, result⟩ := next trim
        simp only [isBlank, if_true]
        rw [List.takeWhile_cons_of_pos isBlank]
        refine ⟨n, looped, ?_⟩
        rcases result with ⟨rfl, none_⟩ | ⟨before, last, after, run, isEnd, none_, rfl⟩
        · exact .inl ⟨rfl, List.forall_mem_cons.mpr ⟨Bool.not_eq_true _ ▸ end_, none_⟩⟩
        · refine .inr ⟨cc :: before, last, after, by rw [run]; rfl, isEnd, none_, ?_⟩
          rw [List.length_cons]
          omega
      · rw [List.takeWhile_cons_of_neg isBlank]
        exact ⟨trim, if_neg isBlank, .inl ⟨rfl, by simp⟩⟩

theorem headLines_text (text behind : Bytes) :
    ∃ n, headLines (text ++ behind) text.length 0 0 = .ok n ∧ n ≤ text.length ∧ text.drop n = trimHead text := by
  obtain ⟨n, looped, result⟩ := headLines_run [] text behind 0
  have whole := List.takeWhile_append_dropWhile (p := blank) (l := text)
  refine ⟨n, looped, ?_⟩
  rw [trimHead]
  rcases result with ⟨rfl, none_⟩ | ⟨before, cc, after, run, isEnd, none_, rfl⟩
  · refine ⟨Nat.zero_le _, ?_⟩
    rw [List.rtakeWhile_eq_self_iff.mpr fun cc mem => by simp [none_ cc mem], whole]
    rfl
  · have kept : (before ++ cc :: after).rtakeWhile (fun cc => ¬ newline cc) = after := by
      rw [List.rtakeWhile, List.reverse_append, List.reverse_cons, List.append_assoc,
        List.takeWhile_append_of_pos fun cc mem => by simp [none_ cc (List.mem_reverse.mp mem)],
        List.singleton_append, List.takeWhile_cons_of_neg (by simp [isEnd]), List.append_nil,
        List.reverse_reverse]
    rw [run] at whole ⊢
    rw [kept]
    generalize text.dropWhile blank = rest at whole
    have length : ([] : Bytes).length + before.length + 1 = (before ++ [cc]).length := by simp
    rw [List.append_cons before cc after, List.append_assoc] at whole
    rw [length, ← whole]
    exact ⟨(List.sublist_append_left _ _).length_le, List.drop_left⟩

theorem tailLines_text (text behind : Bytes) :
    ∃ n, tailLines (text ++ behind) text.length text.length = .ok n ∧ n ≤ text.length ∧ text.take n = trimTail text := by
  have whole := List.rdropWhile_append_rtakeWhile (p := blank) (l := text)
  have stops : ∀ cc, (text.rdropWhile blank).getLast? = some cc → blank cc = false := by
    intro cc last
    obtain ⟨some_, rfl⟩ := List.mem_getLast?_eq_getLast last
    exact Bool.not_eq_true _ ▸ List.rdropWhile_last_not blank text some_
  have blanks : ∀ cc ∈ text.rtakeWhile blank, blank cc = true := fun _ => List.mem_rtakeWhile_imp
  have looped := tailLines_run blanks stops behind text.length
  rw [whole, ← List.length_append, whole] at looped
  refine ⟨_, looped, ?_⟩
  rw [trimTail]
  cases found : (text.rtakeWhile blank).findIdx? newline with
  | none => exact ⟨Nat.le_refl _, List.take_length⟩
  | some i =>
    have inside := (List.findIdx?_eq_some_iff_findIdx_eq.mp found).1
    have length := congrArg List.length whole
    rw [List.length_append] at length
    refine ⟨?_, ?_⟩
    · change (text.rdropWhile blank).length + i + 1 ≤ text.length
      omega
    · have taken : (text.rdropWhile blank ++ text.rtakeWhile blank).take
          ((text.rdropWhile blank).length + (i + 1)) =
            text.rdropWhile blank ++ (text.rtakeWhile blank).take (i + 1) := List.take_length_add_append _
      rwa [whole] at taken

/-- The loop that trims at the tail, from the end of a text on. -/
theorem trimTailLoop_text (reject : CString) (text behind : Bytes) (len : Nat) :
    trimTailLoop reject (text ++ behind) text.length len =
      .ok (if text.rdropWhile (rejected reject) = text then len
        else (text.rdropWhile (rejected reject)).length) := by
  induction text using List.reverseRecOn generalizing behind len with
  | nil => rfl
  | append_singleton text c ih =>
    have here : load (text ++ [c] ++ behind) text.length = .ok c := by
      rw [List.append_assoc, load, List.getElem?_append_right (Nat.le_refl _), Nat.sub_self]
      rfl
    rw [List.length_append, List.length_singleton, trimTailLoop, here]
    by_cases cut : rejected reject c = true
    · have shorter : text.rdropWhile (rejected reject) ≠ text ++ [c] := by
        intro same
        have length := (List.rdropWhile_prefix (rejected reject) (l := text)).length_le
        rw [same, List.length_append, List.length_singleton] at length
        omega
      simp only [bind, Except.bind, cut, if_true]
      rw [List.append_assoc, ih, List.rdropWhile_concat_pos _ _ _ cut, if_neg shorter]
      by_cases kept : text.rdropWhile (rejected reject) = text
      · rw [if_pos kept, kept]
      · rw [if_neg kept]
    · simp only [bind, Except.bind, cut]
      rw [List.rdropWhile_concat_neg _ _ _ cut, if_pos rfl]
      rfl

/-- A sound buffer whose size is a `size_t`. -/
structure Held (contents : Bytes) (sb : NiStringbuf) : Prop where
  sound : Sound contents sb
  bounded : sb.size < 2 ^ 64

section Calls

variable {contents : Bytes} {sb next : NiStringbuf}

theorem held_empty : Held [] {} := ⟨sound_empty, by decide⟩

variable {text behind : Bytes}

theorem held_of (bounded : size < 2 ^ 64)
    (length : text.length + 1 + behind.length = size) : Held text (.of text behind) :=
  ⟨sound_of text behind, by rwa [← length] at bounded⟩

theorem Held.put (held : Held contents sb) (takes : sb.Takes s.length) :
    ∃ next, stringbufPut sb s = .ok next ∧ Held (contents ++ s) next := by
  obtain ⟨next, put, sound, bounded⟩ := held.sound.put held.bounded takes
  exact ⟨next, put, sound, bounded⟩

theorem Held.grow (held : Held contents sb) (counts : sb.Counts n) :
    ∃ next, stringbufRealloc sb n = .ok next ∧ Held contents next := by
  by_cases extends_ : sb.Extends n
  · obtain ⟨spare, allocated, -, small⟩ := held.sound.realloc_extends extends_ (counts extends_)
    exact ⟨_, allocated, held_of small (by rw [List.length_replicate])⟩
  · exact ⟨sb, realloc_keeps extends_, held⟩

theorem Held.counts (held : Held contents sb) (small : n < 2 ^ 64)
    (allocated : stringbufRealloc sb n = .ok next) : sb.Counts n := by
  intro extends_
  by_contra wraps
  rw [held.sound.realloc_wraps extends_ held.bounded small wraps] at allocated
  cases allocated

/-- The functions that trim have storage then, and only NUL is written to it. -/
theorem Held.room (held : Held contents sb) (counts : sb.Counts sb.len) :
    ∃ behind, stringbufRealloc sb sb.len = .ok (.of contents behind) ∧ contents.length + 1 + behind.length < 2 ^ 64 := by
  by_cases extends_ : sb.Extends sb.len
  · obtain ⟨spare, allocated, -, small⟩ := held.sound.realloc_extends extends_ (counts extends_)
    exact ⟨_, allocated, by rwa [List.length_replicate]⟩
  · rcases held.sound.shape with ⟨rfl, -⟩ | ⟨behind, rfl⟩
    · exact absurd (show 0 < (0 + 0 + 1) % 2 ^ 64 by decide) extends_
    · exact ⟨behind, realloc_keeps extends_, held.bounded⟩

/-- `ni_stringbuf_truncate` makes more room, which is NUL, or the bytes that it makes part of the
contents are NUL. -/
def NiStringbuf.Truncates (sb : NiStringbuf) (at_ : Nat) : Prop :=
  sb.Counts at_ ∧ (¬ sb.Extends at_ →
    at_ < sb.size ∧ ∀ c ∈ ((sb.string.getD []).take at_).drop sb.len, c = 0)

/-- The contents cut at a length, or with NUL up to it. -/
def truncated (text : Bytes) (at_ : Nat) : Bytes :=
  text.take at_ ++ List.replicate (at_ - text.length) 0

theorem take_eq_truncated (inside : at_ < (text ++ rest).length) :
    (text ++ rest).take at_ = truncated text at_ ↔ ∀ c ∈ ((text ++ rest).take at_).drop text.length, c = 0 := by
  rw [List.take_append, truncated, List.append_cancel_left_eq, List.eq_replicate_iff,
    List.length_take, and_iff_right (by rw [List.length_append] at inside; omega), List.drop_append,
    List.drop_eq_nil_of_le (by rw [List.length_take]; omega), List.nil_append, List.length_take]
  by_cases shorter : at_ ≤ text.length
  · rw [Nat.sub_eq_zero_of_le shorter, List.take_zero, List.drop_nil]
  · rw [Nat.min_eq_right (by omega), Nat.sub_self, List.drop_zero]

theorem terminate_of (inside : at_ < (text ++ 0 :: behind).length) :
    ∃ ended, (NiStringbuf.of text behind).change (fun cells => store cells at_ 0) = .ok ended ∧
      { ended with len := at_ } =
        NiStringbuf.of ((text ++ 0 :: behind).take at_) ((text ++ 0 :: behind).drop (at_ + 1)) :=
  terminate rfl (length_of text behind) inside

theorem truncate_of (allocated : stringbufRealloc sb at_ = .ok (.of text behind))
    (inside : at_ < (text ++ 0 :: behind).length) :
    niStringbufTruncate sb at_ = .ok (.of ((text ++ 0 :: behind).take at_) ((text ++ 0 :: behind).drop (at_ + 1))) := by
  obtain ⟨ended, changed, shape⟩ := terminate_of inside
  rw [niStringbufTruncate, allocated, ← shape]
  change (NiStringbuf.of text behind).change _ >>= _ = _
  rw [changed]
  rfl

theorem held_cut (inside : at_ < (text ++ 0 :: behind).length) (bounded : (text ++ 0 :: behind).length < 2 ^ 64) :
    Held ((text ++ 0 :: behind).take at_) (.of ((text ++ 0 :: behind).take at_) ((text ++ 0 :: behind).drop (at_ + 1))) :=
  held_of bounded (by rw [List.length_take, List.length_drop]; omega)

theorem Held.truncate (held : Held contents sb) (truncates : sb.Truncates n) :
    ∃ next, niStringbufTruncate sb n = .ok next ∧ Held (truncated contents n) next := by
  by_cases extends_ : sb.Extends n
  · obtain ⟨spare, allocated, room, small⟩ := held.sound.realloc_extends extends_ (truncates.1 extends_)
    have inside : n < (contents ++ 0 :: List.replicate spare 0).length := by
      rw [length_of, List.length_replicate]
      omega
    have zeros : (contents ++ 0 :: List.replicate spare 0).take n = truncated contents n := by
      refine (take_eq_truncated inside).mpr fun c mem => ?_
      rw [List.take_append, List.drop_append, ← List.replicate_succ] at mem
      rcases List.mem_append.mp mem with front | behind
      · rw [List.drop_eq_nil_of_le (by rw [List.length_take]; omega)] at front
        cases front
      · exact List.eq_of_mem_replicate (List.mem_of_mem_take (List.mem_of_mem_drop behind))
    refine ⟨_, truncate_of allocated inside, zeros ▸ held_cut inside ?_⟩
    rwa [length_of, List.length_replicate]
  · obtain ⟨inside, zeros⟩ := truncates.2 extends_
    rcases held.sound.shape with ⟨rfl, -⟩ | ⟨behind, rfl⟩
    · cases inside
    · have inside' : n < (contents ++ 0 :: behind).length := by rwa [length_of]
      have cut := (take_eq_truncated inside').mpr zeros
      refine ⟨_, truncate_of (realloc_keeps extends_) inside', cut ▸ held_cut inside' ?_⟩
      rw [length_of]
      exact held.bounded

theorem Held.truncates (held : Held contents sb) (small : n < 2 ^ 64)
    (done : niStringbufTruncate sb n = .ok next) (sound : Sound (truncated contents n) next) : sb.Truncates n := by
  obtain ⟨longer, allocated, ended⟩ := bind_ok.mp done
  refine ⟨held.counts small allocated, fun kept => ?_⟩
  rw [realloc_keeps kept] at allocated
  cases allocated
  rcases held.sound.shape with ⟨rfl, -⟩ | ⟨behind, rfl⟩
  · cases ended
  · have inside : n < (contents ++ 0 :: behind).length := by
      obtain ⟨changed, stored, -⟩ := bind_ok.mp ended
      obtain ⟨cells, result, storage, stored, -⟩ := change_ok.mp stored
      cases storage
      exact (store_ok.mp stored).1
    rw [truncate_of (realloc_keeps kept) inside] at done
    cases done
    refine ⟨by rwa [length_of] at inside, (take_eq_truncated inside).mp ?_⟩
    have cut := sound.stored _ rfl
    exact List.take_left.symm.trans cut.2.2.2

theorem dropHead_of (inside : n ≤ text.length) (bounded : text.length + 1 + behind.length < 2 ^ 64) :
    ∃ next, dropHead (.of text behind) n = .ok next ∧ Held (text.drop n) next := by
  by_cases zero : n = 0
  · subst n
    exact ⟨_, if_pos rfl, held_of bounded rfl⟩
  · have moved : move (text ++ 0 :: behind) 0 n (text.length - n + 1) =
        .ok (text.drop n ++ 0 :: (text ++ 0 :: behind).drop (text.length - n + 1)) := by
      have shifted : ((text ++ 0 :: behind).drop n).take (text.length - n + 1) = text.drop n ++ [0] := by
        rw [List.drop_append_of_le_length inside, List.append_cons,
          List.take_left' (by rw [List.length_append, List.length_drop]; rfl)]
      have length : (text.drop n ++ [(0 : UInt8)]).length = text.length - n + 1 := by
        rw [List.length_append, List.length_drop]
        rfl
      rw [move, if_pos (by rw [length_of]; omega), shifted, write, length,
        if_pos (by rw [length_of]; omega), Nat.zero_add, List.take_zero, List.nil_append,
        List.append_assoc]
      rfl
    have size : (text.drop n).length + 1 +
        ((text ++ 0 :: behind).drop (text.length - n + 1)).length = text.length + 1 + behind.length := by
      rw [List.length_drop, List.length_drop, length_of]
      omega
    refine ⟨_, ?_, held_of bounded size⟩
    rw [dropHead, if_neg zero]
    change NiStringbuf.change ⟨text.length + 1 + behind.length, text.length - n,
      some (text ++ 0 :: behind)⟩ (fun cells => move cells 0 n (text.length - n + 1)) = _
    rw [change_stored rfl, moved, NiStringbuf.of, size, List.length_drop]
    rfl

theorem takeWhile_ended (ends : p 0 = false) (text behind : Bytes) :
    (text ++ 0 :: behind).takeWhile p = text.takeWhile p := by
  induction text with
  | nil => exact List.takeWhile_cons_of_neg (by rw [ends]; exact Bool.false_ne_true)
  | cons c text ih =>
    rw [List.cons_append, List.takeWhile_cons, List.takeWhile_cons, ih]

theorem drop_takeWhile (p : UInt8 → Bool) (text : Bytes) : text.drop (text.takeWhile p).length = text.dropWhile p := by
  have dropped : (text.takeWhile p ++ text.dropWhile p).drop (text.takeWhile p).length =
      text.dropWhile p := List.drop_left
  rwa [List.takeWhile_append_dropWhile] at dropped

theorem Held.trimHead (held : Held contents sb) (counts : sb.Counts sb.len) (reject : CString) :
    ∃ next, niStringbufTrimHead sb reject = .ok next ∧ Held (contents.dropWhile (rejected reject)) next := by
  obtain ⟨behind, allocated, bounded⟩ := held.room counts
  have inside : sb.len < (contents ++ 0 :: behind).length := by
    rw [length_of, held.sound.len]
    omega
  have ended : niStringbufTruncate sb sb.len = .ok (.of contents behind) := by
    rw [truncate_of allocated inside, held.sound.len, List.take_left, List.drop_length_add_append]
    rfl
  have length := (List.takeWhile_prefix (rejected reject) (l := contents)).length_le
  have spanned : strspn (contents ++ 0 :: behind) reject = .ok (contents.takeWhile (rejected reject)).length := by
    rw [strspn, takeWhile_ended rfl, if_pos (by rw [length_of]; omega)]
  obtain ⟨next, trimmed, held'⟩ := dropHead_of length bounded
  rw [drop_takeWhile] at held'
  refine ⟨next, ?_, held'⟩
  rw [niStringbufTrimHead, ended]
  change strspn (contents ++ 0 :: behind) reject >>= _ = _
  rw [spanned]
  exact trimmed

theorem Held.trimHead_counts (held : Held contents sb) (done : niStringbufTrimHead sb reject = .ok next) (small : sb.len < 2 ^ 64) : sb.Counts sb.len := by
  obtain ⟨cut, truncated_, -⟩ := bind_ok.mp done
  obtain ⟨longer, allocated, -⟩ := bind_ok.mp truncated_
  exact held.counts small allocated

/-- The contents have no NUL, or no byte is trimmed from them, nor from what is before the first
NUL. -/
def TrimsTail (reject : CString) (text : Bytes) : Prop :=
  0 ∈ text → text.rdropWhile (rejected reject) = text ∧
    (text.takeWhile (· ≠ 0)).rdropWhile (rejected reject) = text.takeWhile (· ≠ 0)

/-- Where the contents end once the loop has stopped. -/
def tailLength (reject : CString) (text : Bytes) : Nat :=
  let string := text.takeWhile (· ≠ 0)
  if string.rdropWhile (rejected reject) = string then text.length
  else (string.rdropWhile (rejected reject)).length

theorem tailLength_le (reject : CString) (text : Bytes) : tailLength reject text ≤ text.length := by
  have string := (List.takeWhile_prefix (fun c : UInt8 => decide (c ≠ 0)) (l := text)).length_le
  have kept := (List.rdropWhile_prefix (rejected reject) (l := text.takeWhile (· ≠ 0))).length_le
  rw [tailLength]
  split
  · exact Nat.le_refl _
  · exact kept.trans string

theorem take_tailLength (reject : CString) (text : Bytes) :
    text.take (tailLength reject text) = text.rdropWhile (rejected reject) ↔
      TrimsTail reject text := by
  by_cases zero : 0 ∈ text
  · rw [TrimsTail, imp_iff_right zero, tailLength]
    by_cases kept : (text.takeWhile (· ≠ 0)).rdropWhile (rejected reject) = text.takeWhile (· ≠ 0)
    · rw [if_pos kept, List.take_length, and_iff_left kept]
      exact eq_comm
    · rw [if_neg kept]
      refine iff_of_false (fun same => ?_) fun both => kept both.2
      -- The NUL stays at the end, but the text that the loop cuts has none.
      have stays : 0 ∈ text.rdropWhile (rejected reject) := by
        have parts := List.rdropWhile_append_rtakeWhile (p := rejected reject) (l := text)
        rw [← parts] at zero
        refine (List.mem_append.mp zero).resolve_right fun trimmed => ?_
        exact absurd (List.mem_rtakeWhile_imp trimmed) (by simp [rejected])
      have front : text.take ((text.takeWhile (· ≠ 0)).rdropWhile (rejected reject)).length =
          (text.takeWhile (· ≠ 0)).rdropWhile (rejected reject) :=
        (List.prefix_iff_eq_take.mp ((List.rdropWhile_prefix _ _).trans (List.takeWhile_prefix _))).symm
      rw [← same, front] at stays
      have inString := (List.rdropWhile_prefix (rejected reject) _).subset stays
      exact absurd (List.mem_takeWhile_imp inString) (by decide)
  · have string : text.takeWhile (· ≠ 0) = text := by
      rw [List.takeWhile_eq_self_iff]
      intro c mem
      exact decide_eq_true fun isZero => zero (isZero ▸ mem)
    refine iff_of_true ?_ fun mem => absurd mem zero
    rw [tailLength, string]
    by_cases kept : text.rdropWhile (rejected reject) = text
    · rw [if_pos kept, List.take_length, kept]
    · rw [if_neg kept]
      exact (List.prefix_iff_eq_take.mp (List.rdropWhile_prefix _ _)).symm

theorem Held.trimTail (held : Held contents sb) (counts : sb.Counts sb.len) (reject : CString) :
    ∃ next, niStringbufTrimTail sb reject = .ok next ∧ Held (contents.take (tailLength reject contents)) next := by
  obtain ⟨behind, allocated, bounded⟩ := held.room counts
  have shorter := tailLength_le reject contents
  have inside : tailLength reject contents < (contents ++ 0 :: behind).length := by
    rw [length_of]
    omega
  have measured : strlen (contents ++ 0 :: behind) = .ok (contents.takeWhile (· ≠ 0)).length := by
    have length := (List.takeWhile_prefix (fun c : UInt8 => decide (c ≠ 0)) (l := contents)).length_le
    rw [strlen, takeWhile_ended (by decide), if_pos (by rw [length_of]; omega)]
  have looped : trimTailLoop reject (contents ++ 0 :: behind)
      (contents.takeWhile (· ≠ 0)).length contents.length = .ok (tailLength reject contents) := by
    have parts := List.takeWhile_append_dropWhile (p := fun c : UInt8 => decide (c ≠ 0)) (l := contents)
    have looped := trimTailLoop_text reject (contents.takeWhile (· ≠ 0))
      (contents.dropWhile (· ≠ 0) ++ 0 :: behind) contents.length
    rwa [← List.append_assoc, parts] at looped
  obtain ⟨ended, changed, shape⟩ := terminate_of inside
  have cut := held_cut inside (by rwa [length_of])
  rw [← shape, List.take_append_of_le_length shorter] at cut
  refine ⟨_, ?_, cut⟩
  rw [niStringbufTrimTail, allocated]
  change strlen (contents ++ 0 :: behind) >>= _ = _
  rw [measured]
  change trimTailLoop reject (contents ++ 0 :: behind) _ contents.length >>= _ = _
  rw [looped]
  change (NiStringbuf.of contents behind).change _ >>= _ = _
  rw [changed]
  rfl

theorem Held.trimTail_counts (held : Held contents sb) (done : niStringbufTrimTail sb reject = .ok next) (small : sb.len < 2 ^ 64) : sb.Counts sb.len := by
  obtain ⟨longer, allocated, -⟩ := bind_ok.mp done
  exact held.counts small allocated

theorem trimEmptyLines_of (bounded : text.length + 1 + behind.length < 2 ^ 64) :
    ∃ next, niStringbufTrimEmptyLines (.of text behind) = .ok next ∧ Held (trimEmptyLines text) next := by
  obtain ⟨n, tail, shorter, cut⟩ := tailLines_text text (0 :: behind)
  have inside : n < (text ++ 0 :: behind).length := by
    rw [length_of]
    omega
  obtain ⟨ended, changed, shape⟩ := terminate_of inside
  rw [List.take_append_of_le_length shorter, cut] at shape
  obtain ⟨m, head, fewer, rest⟩ := headLines_text (trimTail text) (0 :: (text ++ 0 :: behind).drop (n + 1))
  have length := congrArg List.length cut
  rw [List.length_take, Nat.min_eq_left shorter] at length
  have small : (trimTail text).length + 1 + ((text ++ 0 :: behind).drop (n + 1)).length < 2 ^ 64 := by
    rw [List.length_drop, length_of]
    omega
  obtain ⟨next, dropped, held⟩ := dropHead_of fewer small
  refine ⟨next, ?_, by rwa [rest] at held⟩
  rw [niStringbufTrimEmptyLines]
  change tailLines (text ++ 0 :: behind) text.length text.length >>= _ = _
  rw [tail]
  change (NiStringbuf.of text behind).change _ >>= _ = _
  rw [changed]
  change NiStringbuf.cells { ended with len := n } >>= _ = _
  rw [shape]
  change headLines (trimTail text ++ 0 :: (text ++ 0 :: behind).drop (n + 1)) (trimTail text).length 0 0 >>= _ = _
  rw [head]
  exact dropped

/-- Without storage the NUL is written through `NULL`. -/
theorem trimEmptyLines_unstored : niStringbufTrimEmptyLines {} = .error .null := rfl

end Calls

end Testbus.Util
