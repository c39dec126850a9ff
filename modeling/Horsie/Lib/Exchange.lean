import Mathlib.Data.List.Nodup
import Mathlib.Data.List.Perm.Subperm
import Mathlib.Data.List.TakeWhile

/-!
# Calls and answers

Histories in which some messages make calls and later messages answer them. A call is answered
where it belongs when its answer lies in the run of replies directly after the message that made
it. `Sound` is the invariant of a history that may leave calls open: no call has two answers, and
every answer a call has is where it belongs. `mend` closes the open calls of a history; mending a
sound history leaves every call with exactly one answer, where it belongs (`wellFormed_mend`).
-/

namespace Horsie.Lib

variable {α ι : Type*}

/-- How to read a message: the calls it makes, the calls it answers, and whether it is a reply.
Replies make no calls. -/
structure Exchange (α ι : Type*) where
  calls : α → List ι
  answers : α → List ι
  reply : α → Bool
  calls_of_reply : ∀ m, reply m = true → calls m = []

namespace Exchange

variable (X : Exchange α ι)

def run (l : List α) : List α := l.takeWhile X.reply

def allCalls (l : List α) : List ι := l.flatMap X.calls

def allAnswers (l : List α) : List ι := l.flatMap X.answers

/-- Every call that `Q` holds of is answered in the run of replies after its message. -/
def Near (Q : ι → Prop) : List α → Prop
  | [] => True
  | m :: l => (∀ c ∈ X.calls m, Q c → c ∈ X.allAnswers (X.run l)) ∧ Near Q l

/-- The calls of the newest message, the replies after it apart. -/
def tailCalls : List α → List ι
  | [] => []
  | m :: l => if l.all X.reply then X.calls m else tailCalls l

@[simp] theorem allCalls_nil : X.allCalls [] = [] := rfl

@[simp] theorem allCalls_cons (m : α) (l : List α) :
    X.allCalls (m :: l) = X.calls m ++ X.allCalls l := rfl

@[simp] theorem allCalls_append (l l' : List α) :
    X.allCalls (l ++ l') = X.allCalls l ++ X.allCalls l' := List.flatMap_append

@[simp] theorem allAnswers_nil : X.allAnswers [] = [] := rfl

@[simp] theorem allAnswers_cons (m : α) (l : List α) :
    X.allAnswers (m :: l) = X.answers m ++ X.allAnswers l := rfl

@[simp] theorem allAnswers_append (l l' : List α) :
    X.allAnswers (l ++ l') = X.allAnswers l ++ X.allAnswers l' := List.flatMap_append

variable {X}

variable {l : List α}

theorem run_append_of_all (h : l.all X.reply) (l' : List α) :
    X.run (l ++ l') = l ++ X.run l' :=
  List.takeWhile_append_of_pos (List.all_eq_true.mp h)

theorem run_append_of_not_all (h : ¬l.all X.reply) (l' : List α) :
    X.run (l ++ l') = X.run l := by
  induction l with
  | nil => exact absurd rfl h
  | cons m l ih =>
    simp only [run, List.cons_append, List.takeWhile_cons]
    by_cases hm : X.reply m
    · have hl : ¬l.all X.reply := fun hl => h (by simp [hm, hl])
      simp only [hm, if_true]
      exact congrArg (m :: ·) (ih hl)
    · simp [hm]

variable {c : ι}

theorem mem_run_append (h : c ∈ X.allAnswers (X.run l)) (l' : List α) :
    c ∈ X.allAnswers (X.run (l ++ l')) := by
  by_cases hl : l.all X.reply
  · rw [run_append_of_all hl, allAnswers_append]
    have hrun : X.run l = l := List.takeWhile_eq_self_iff.mpr (List.all_eq_true.mp hl)
    exact List.mem_append_left _ (hrun ▸ h)
  · rwa [run_append_of_not_all hl]

variable {Q : ι → Prop}

theorem Near.mono {R : ι → Prop} (h : X.Near R l)
    (hQ : ∀ c ∈ X.allCalls l, Q c → R c) : X.Near Q l := by
  induction l with
  | nil => trivial
  | cons m l ih =>
    refine ⟨fun c hc hq => h.1 c hc (hQ c ?_ hq), ih h.2 fun c hc => hQ c ?_⟩
    · exact List.mem_append_left _ hc
    · exact List.mem_append_right _ hc

variable {p : List α}

theorem Near.suffix (h : X.Near Q (p ++ l)) : X.Near Q l := by
  induction p with
  | nil => exact h
  | cons m p ih => exact ih h.2

theorem Near.mem_answers (h : X.Near Q l)
    (hc : c ∈ X.allCalls l) (hq : Q c) : c ∈ X.allAnswers l := by
  induction l with
  | nil => cases hc
  | cons m l ih =>
    refine List.mem_append_right _ ?_
    rcases List.mem_append.mp hc with hc | hc
    · obtain ⟨k, hk, hck⟩ := List.mem_flatMap.mp (h.1 c hc hq)
      exact List.mem_flatMap.mpr ⟨k, (List.takeWhile_subset _) hk, hck⟩
    · exact ih h.2 hc

/-- Replies in front of a history make no calls. -/
theorem near_append_of_all (hp : p.all X.reply) :
    X.Near Q (p ++ l) ↔ X.Near Q l := by
  induction p with
  | nil => rfl
  | cons m p ih =>
    simp only [List.all_cons, Bool.and_eq_true] at hp
    simp only [List.cons_append, Near, X.calls_of_reply m hp.1, List.not_mem_nil, false_implies,
      implies_true, true_and, ih hp.2]

theorem allCalls_of_all (h : l.all X.reply) : X.allCalls l = [] :=
  List.flatMap_eq_nil_iff.mpr fun m hm => X.calls_of_reply m (List.all_eq_true.mp h m hm)

theorem tailCalls_subset (l : List α) : X.tailCalls l ⊆ X.allCalls l := by
  induction l with
  | nil => exact List.Subset.refl _
  | cons m l ih =>
    intro c hc
    simp only [tailCalls] at hc
    split_ifs at hc
    · exact List.mem_append_left _ hc
    · exact List.mem_append_right _ (ih hc)

theorem tailCalls_append_of_all {r : List α} (hr : r.all X.reply) :
    X.tailCalls (l ++ r) = X.tailCalls l := by
  induction l with
  | nil =>
    cases r with
    | nil => rfl
    | cons m r =>
      simp only [List.all_cons, Bool.and_eq_true] at hr
      simp [tailCalls, hr.2, X.calls_of_reply m hr.1]
  | cons m l ih => simp [tailCalls, hr, ih]

variable {m : α}

theorem tailCalls_concat (hm : ¬X.reply m) (l : List α) :
    X.tailCalls (l ++ [m]) = X.calls m := by
  induction l with
  | nil => rfl
  | cons k l ih => simp [tailCalls, hm, ih]

/-- In a history that makes no call twice, a call of the newest message found in a suffix is a
call of the newest message of that suffix. -/
theorem tailCalls_suffix (hnd : (X.allCalls (p ++ l)).Nodup)
    (hc : c ∈ X.tailCalls (p ++ l)) (hl : c ∈ X.allCalls l) : c ∈ X.tailCalls l := by
  induction p with
  | nil => exact hc
  | cons m p ih =>
    rw [List.cons_append, allCalls_cons, List.nodup_append] at hnd
    simp only [List.cons_append, tailCalls] at hc
    split_ifs at hc with hr
    · have : c ∈ X.allCalls (p ++ l) := by
        rw [allCalls_append]
        exact List.mem_append_right _ hl
      exact absurd rfl (hnd.2.2 c hc c this)
    · exact ih hnd.2.1 hc

/-- The calls of a longer history, answered where they belonged in the shorter one. -/
theorem near_append {r : List α} (hl : X.Near Q l) (hr : X.Near Q r) :
    X.Near Q (l ++ r) := by
  induction l with
  | nil => exact hr
  | cons m l ih => exact ⟨fun c hc hq => mem_run_append (hl.1 c hc hq) r, ih hl.2⟩

/-- Answers that all belong to the newest message are where they belong at the end. -/
theorem Near.concat (h : X.Near Q l) (hm : X.reply m)
    (hnd : (X.allCalls l).Nodup)
    (htail : ∀ c ∈ X.answers m, c ∈ X.allCalls l → c ∈ X.tailCalls l) :
    X.Near (fun c => Q c ∨ c ∈ X.answers m) (l ++ [m]) := by
  induction l with
  | nil => exact ⟨fun c hc => absurd hc (by simp [X.calls_of_reply m hm]), trivial⟩
  | cons k l ih =>
    rw [allCalls_cons, List.nodup_append] at hnd
    by_cases hl : l.all X.reply
    · have hlm : (l ++ [m]).all X.reply := by simp_all
      refine ⟨fun c hc hq => ?_, ?_⟩
      · rcases hq with hq | hq
        · exact mem_run_append (h.1 c hc hq) [m]
        · have hrun : X.run (l ++ [m]) = l ++ [m] :=
            List.takeWhile_eq_self_iff.mpr (List.all_eq_true.mp hlm)
          exact hrun ▸ by simp [hq]
      · simpa using (near_append_of_all (l := []) hlm).mpr trivial
    · have htail' : ∀ c ∈ X.answers m, c ∈ X.allCalls (k :: l) → c ∈ X.tailCalls l :=
        fun c hc hck => by simpa [tailCalls, hl] using htail c hc hck
      refine ⟨fun c hc hq => ?_, ih h.2 hnd.2.1 fun c hc hcl =>
        htail' c hc (List.mem_append_right _ hcl)⟩
      rcases hq with hq | hq
      · exact mem_run_append (h.1 c hc hq) [m]
      · -- a call of the newest message is made once, so not by `k`
        have hck : c ∈ X.allCalls (k :: l) := List.mem_append_left _ hc
        exact absurd rfl (hnd.2.2 c hc c (tailCalls_subset l (htail' c hq hck)))

/-! ## Sound histories -/

variable (X) in
/-- The answers `as` belong at the end of the history: they are to open calls, once each, and
where the history makes the call, its newest message does. -/
structure Fits (l : List α) (as : List ι) : Prop where
  nodup : as.Nodup
  open_ : ∀ c ∈ as, c ∉ X.allAnswers l
  tail : ∀ c ∈ as, c ∈ X.allCalls l → c ∈ X.tailCalls l

theorem fits_nil (l : List α) : X.Fits l [] :=
  ⟨List.nodup_nil, fun _ h => absurd h List.not_mem_nil, fun _ h => absurd h List.not_mem_nil⟩

variable {as : List ι}

theorem Fits.subperm {bs : List ι} (h : X.Fits l as) (hs : bs.Subperm as) :
    X.Fits l bs where
  nodup := by
    obtain ⟨cs, hperm, hsub⟩ := hs
    exact hperm.nodup_iff.mp (hsub.nodup h.nodup)
  open_ c hc := h.open_ c (List.Subperm.subset hs hc)
  tail c hc := h.tail c (List.Subperm.subset hs hc)

theorem Fits.snoc_reply (hm : X.reply m)
    (h : X.Fits l (X.answers m ++ as)) : X.Fits (l ++ [m]) as where
  nodup := (List.nodup_append.mp h.nodup).2.1
  open_ c hc hmem := by
    rw [allAnswers_append] at hmem
    rcases List.mem_append.mp hmem with hmem | hmem
    · exact h.open_ c (List.mem_append_right _ hc) hmem
    · exact (List.nodup_append.mp h.nodup).2.2 c (by simpa using hmem) c hc rfl
  tail c hc hmem := by
    have hall : [m].all X.reply := by simp [hm]
    rw [allCalls_append, allCalls_of_all hall, List.append_nil] at hmem
    rw [tailCalls_append_of_all hall]
    exact h.tail c (List.mem_append_right _ hc) hmem

theorem Fits.suffix (hnd : (X.allCalls (p ++ l)).Nodup)
    (h : X.Fits (p ++ l) as) : X.Fits l as where
  nodup := h.nodup
  open_ c hc hmem := h.open_ c hc (by rw [allAnswers_append]; exact List.mem_append_right _ hmem)
  tail c hc hmem := tailCalls_suffix hnd
    (h.tail c hc (by rw [allCalls_append]; exact List.mem_append_right _ hmem)) hmem

/-- A message without calls or answers may stand in front. -/
theorem Fits.cons (h : X.Fits l as) (hc : X.calls m = [])
    (ha : X.answers m = []) : X.Fits (m :: l) as where
  nodup := h.nodup
  open_ c hca := by simpa [ha] using h.open_ c hca
  tail c hca hmem := by
    rw [allCalls_cons, hc, List.nil_append] at hmem
    by_cases hl : l.all X.reply
    · rw [allCalls_of_all hl] at hmem
      cases hmem
    · simpa [tailCalls, hl] using h.tail c hca hmem

variable [DecidableEq ι]

instance decidableNear {Q : ι → Prop} [DecidablePred Q] : DecidablePred (X.Near Q)
  | [] => inferInstanceAs (Decidable True)
  | m :: l =>
    have : Decidable (X.Near Q l) := decidableNear l
    inferInstanceAs (Decidable ((∀ c ∈ X.calls m, Q c → c ∈ X.allAnswers (X.run l)) ∧ X.Near Q l))

instance decidableFits (l : List α) (as : List ι) : Decidable (X.Fits l as) :=
  decidable_of_iff (as.Nodup ∧ (∀ c ∈ as, c ∉ X.allAnswers l) ∧
      ∀ c ∈ as, c ∈ X.allCalls l → c ∈ X.tailCalls l)
    ⟨fun h => ⟨h.1, h.2.1, h.2.2⟩, fun h => ⟨h.nodup, h.open_, h.tail⟩⟩

variable (X) in
/-- No call is made twice or answered twice, and every answer a call has is where it belongs. -/
structure Sound (l : List α) : Prop where
  nodup : (X.allCalls l).Nodup
  once : ∀ c ∈ X.allCalls l, (X.allAnswers l).count c ≤ 1
  near : X.Near (· ∈ X.allAnswers l) l

variable (X) in
/-- Every call has exactly one answer, where it belongs. -/
def WellFormed (l : List α) : Prop :=
  ∀ pre m post, l = pre ++ m :: post → ∀ c ∈ X.calls m,
    (X.allAnswers l).count c = 1 ∧ c ∈ X.allAnswers (X.run post)

instance decidableSound (l : List α) : Decidable (X.Sound l) :=
  decidable_of_iff ((X.allCalls l).Nodup ∧ (∀ c ∈ X.allCalls l, (X.allAnswers l).count c ≤ 1) ∧
      X.Near (· ∈ X.allAnswers l) l)
    ⟨fun h => ⟨h.1, h.2.1, h.2.2⟩, fun h => ⟨h.nodup, h.once, h.near⟩⟩

theorem sound_nil : X.Sound [] := ⟨List.nodup_nil, by simp, trivial⟩

theorem wellFormed_iff :
    X.WellFormed l ↔
      (∀ c ∈ X.allCalls l, (X.allAnswers l).count c = 1) ∧ X.Near (fun _ => True) l := by
  have hnear : ∀ l : List α, X.Near (fun _ => True) l ↔
      ∀ pre m post, l = pre ++ m :: post → ∀ c ∈ X.calls m, c ∈ X.allAnswers (X.run post) := by
    intro l
    induction l with
    | nil => simp [Near]
    | cons k l ih =>
      constructor
      · rintro ⟨hk, hl⟩ pre m post he c hc
        cases pre with
        | nil =>
          cases he
          exact hk c hc trivial
        | cons _ pre =>
          cases he
          exact ih.mp hl pre m post rfl c hc
      · intro h
        exact ⟨fun c hc _ => h [] k l rfl c hc,
          ih.mpr fun pre m post he => h (k :: pre) m post (he ▸ rfl)⟩
  rw [hnear]
  constructor
  · intro h
    refine ⟨fun c hc => ?_, fun pre m post he c hc => (h pre m post he c hc).2⟩
    obtain ⟨m, hm, hcm⟩ := List.mem_flatMap.mp hc
    obtain ⟨pre, post, rfl⟩ := List.append_of_mem hm
    exact (h pre m post rfl c hcm).1
  · rintro ⟨hcount, hnear⟩ pre m post rfl c hc
    exact ⟨hcount c (List.mem_flatMap.mpr ⟨m, by simp, hc⟩), hnear pre m post rfl c hc⟩

instance decidableWellFormed (l : List α) : Decidable (X.WellFormed l) :=
  decidable_of_iff _ wellFormed_iff.symm

theorem Sound.suffix (h : X.Sound (p ++ l)) : X.Sound l := by
  refine ⟨?_, fun c hc => ?_, ?_⟩
  · have := h.nodup
    rw [allCalls_append, List.nodup_append] at this
    exact this.2.1
  · have := h.once c (by rw [allCalls_append]; exact List.mem_append_right _ hc)
    rw [allAnswers_append, List.count_append] at this
    omega
  · refine h.near.suffix.mono fun c _ hc => ?_
    rw [allAnswers_append]
    exact List.mem_append_right _ hc

theorem Sound.mem_suffix (h : X.Sound (p ++ l)) (hc : c ∈ X.allCalls l)
    (ha : c ∈ X.allAnswers (p ++ l)) : c ∈ X.allAnswers l :=
  h.near.suffix.mem_answers hc ha

/-- A message without calls or answers may stand anywhere in front. -/
theorem Sound.cons (h : X.Sound l) (hc : X.calls m = [])
    (ha : X.answers m = []) : X.Sound (m :: l) := by
  refine ⟨by simpa [hc] using h.nodup, fun c hcl => ?_, ⟨fun c hcm => ?_, ?_⟩⟩
  · simpa [ha] using h.once c (by simpa [hc] using hcl)
  · exact absurd hcm (by simp [hc])
  · simpa [ha] using h.near

/-- A message that answers nothing and makes only new calls keeps a history sound. -/
theorem Sound.snoc_asker (h : X.Sound l) (ha : X.answers m = [])
    (hnd : (X.calls m).Nodup) (hnew : ∀ c ∈ X.calls m, c ∉ X.allCalls l)
    (hans : ∀ c ∈ X.calls m, c ∉ X.allAnswers l) : X.Sound (l ++ [m]) := by
  have hall : X.allAnswers (l ++ [m]) = X.allAnswers l := by simp [ha]
  have hcalls : X.allCalls (l ++ [m]) = X.allCalls l ++ X.calls m := by simp
  refine ⟨?_, fun c hc => ?_, ?_⟩
  · rw [hcalls, List.nodup_append]
    exact ⟨h.nodup, hnd, fun a hal b hb hab => hnew b hb (hab ▸ hal)⟩
  · rw [hall]
    rcases List.mem_append.mp (hcalls ▸ hc) with hc | hc
    · exact h.once c hc
    · rw [List.count_eq_zero.mpr (hans c hc)]
      exact Nat.zero_le _
  · rw [hall]
    exact near_append h.near ⟨fun c hc hq => absurd hq (hans c hc), trivial⟩

theorem Sound.snoc_reply (h : X.Sound l) (hm : X.reply m)
    (hfit : X.Fits l (X.answers m)) : X.Sound (l ++ [m]) := by
  have hcalls : X.allCalls (l ++ [m]) = X.allCalls l := by simp [X.calls_of_reply m hm]
  have hall : X.allAnswers (l ++ [m]) = X.allAnswers l ++ X.answers m := by simp
  refine ⟨hcalls ▸ h.nodup, fun c hc => ?_, ?_⟩
  · rw [hall, List.count_append]
    rw [hcalls] at hc
    by_cases hca : c ∈ X.answers m
    · have h1 := List.count_eq_one_of_mem hfit.nodup hca
      have h0 := List.count_eq_zero.mpr (hfit.open_ c hca)
      omega
    · rw [List.count_eq_zero.mpr hca]
      exact h.once c hc
  · refine (h.near.concat hm h.nodup hfit.tail).mono fun c _ hc => ?_
    rw [hall] at hc
    exact List.mem_append.mp hc

/-! ## Mending -/

variable (X) in
/-- Answer every call that `known` does not hold of by `syn`, at the end of the run of replies
after the message that made it. -/
def mend (known : ι → Bool) (syn : ι → α) : List α → List α
  | [] => []
  | m :: l =>
    let r := mend known syn l
    m :: (X.run r ++ ((X.calls m).filter (!known ·)).map syn ++ r.dropWhile X.reply)

section Mend

variable {known : ι → Bool} {syn : ι → α}

omit [DecidableEq ι] in
theorem run_append_dropWhile (l : List α) : X.run l ++ l.dropWhile X.reply = l :=
  List.takeWhile_append_dropWhile

omit [DecidableEq ι] in
theorem all_run (l : List α) : (X.run l).all X.reply := List.all_takeWhile

omit [DecidableEq ι] in
theorem length_mend (l : List α) :
    (X.mend known syn l).length = l.length + ((X.allCalls l).filter (!known ·)).length := by
  induction l with
  | nil => rfl
  | cons m l ih =>
    have hsplit := congrArg List.length (run_append_dropWhile (X := X) (X.mend known syn l))
    rw [List.length_append] at hsplit
    simp only [mend, List.length_cons, List.length_append, List.length_map, allCalls_cons,
      List.filter_append]
    omega

omit [DecidableEq ι] in
variable {l : List α}

theorem mend_of_known (h : ∀ c ∈ X.allCalls l, known c = true) :
    X.mend known syn l = l := by
  induction l with
  | nil => rfl
  | cons m l ih =>
    have hm : (X.calls m).filter (!known ·) = [] :=
      List.filter_eq_nil_iff.mpr fun c hc => by simp [h c (List.mem_append_left _ hc)]
    rw [mend, hm, List.map_nil, List.append_nil, run_append_dropWhile,
      ih fun c hc => h c (List.mem_append_right _ hc)]

omit [DecidableEq ι] in
theorem mend_cons_reply {m : α} (hm : X.reply m) (l : List α) :
    X.mend known syn (m :: l) = m :: X.mend known syn l := by
  simp [mend, X.calls_of_reply m hm, run_append_dropWhile]

omit [DecidableEq ι] in
theorem mend_append_of_all {p : List α} (hp : p.all X.reply) (l : List α) :
    X.mend known syn (p ++ l) = p ++ X.mend known syn l := by
  induction p with
  | nil => rfl
  | cons m p ih =>
    simp only [List.all_cons, Bool.and_eq_true] at hp
    rw [List.cons_append, mend_cons_reply hp.1, ih hp.2, List.cons_append]

omit [DecidableEq ι] in
/-- Mending leaves the replies a history begins with alone. -/
theorem run_mend (l : List α) : X.run (X.mend known syn l) = X.run l := by
  induction l with
  | nil => rfl
  | cons m l ih =>
    by_cases hm : X.reply m
    · rw [mend_cons_reply hm]
      simpa [run, hm] using ih
    · simp [mend, run, hm]

omit [DecidableEq ι] in
theorem sublist_mend (l : List α) : l.Sublist (X.mend known syn l) := by
  induction l with
  | nil => exact .slnil
  | cons m l ih =>
    rw [mend]
    refine .cons_cons m (ih.trans ?_)
    have hsplit := run_append_dropWhile (X := X) (X.mend known syn l)
    nth_rewrite 1 [← hsplit]
    exact (List.sublist_append_left _ _).append_right _

omit [DecidableEq ι] in
/-- Two parts of a history are mended apart, where the second begins with no reply. -/
theorem mend_append (p : List α) (hl : X.run l = []) :
    X.mend known syn (p ++ l) = X.mend known syn p ++ X.mend known syn l := by
  induction p with
  | nil => rfl
  | cons m p ih =>
    set a := X.mend known syn p with ha
    set b := X.mend known syn l with hb
    have hrun : X.run (a ++ b) = X.run a := by
      by_cases hall : a.all X.reply
      · rw [run_append_of_all hall, hb, run_mend, hl, List.append_nil]
        exact (List.takeWhile_eq_self_iff.mpr (List.all_eq_true.mp hall)).symm
      · exact run_append_of_not_all hall b
    have hdrop : (a ++ b).dropWhile X.reply = a.dropWhile X.reply ++ b := by
      refine (List.append_right_inj (X.run a)).mp ?_
      rw [← List.append_assoc, run_append_dropWhile, ← hrun, run_append_dropWhile]
    rw [List.cons_append, mend, mend, ih, hrun, hdrop, ← ha]
    simp only [List.cons_append, List.append_assoc]

omit [DecidableEq ι] in
theorem mend_cons_run (m : α) {r : List α} (hr : r.all X.reply) (hl : X.run l = []) :
    X.mend known syn (m :: (r ++ l)) =
      m :: (r ++ ((X.calls m).filter (!known ·)).map syn ++ X.mend known syn l) := by
  have hmended : X.mend known syn (r ++ l) = r ++ X.mend known syn l := mend_append_of_all hr l
  have hempty : X.run (X.mend known syn l) = [] := (run_mend l).trans hl
  have hrun : X.run (r ++ X.mend known syn l) = r := by
    rw [run_append_of_all hr, hempty, List.append_nil]
  have hdrop : (r ++ X.mend known syn l).dropWhile X.reply = X.mend known syn l := by
    have hsplit := run_append_dropWhile (X := X) (r ++ X.mend known syn l)
    rw [hrun] at hsplit
    exact List.append_cancel_left hsplit
  rw [mend, hmended, hrun, hdrop]

omit [DecidableEq ι] in
theorem run_mended {s : List α} (hs : s.all X.reply) (l e : List α) :
    X.run (X.run l ++ s ++ l.dropWhile X.reply ++ e) =
      X.run l ++ s ++ X.run (l.dropWhile X.reply ++ e) := by
  have hall : (X.run l ++ s).all X.reply := by
    rw [List.all_append, all_run, hs]
    rfl
  rw [List.append_assoc, run_append_of_all hall]

variable (hreply : ∀ c, X.reply (syn c)) (hans : ∀ c, X.answers (syn c) = [c])

include hreply in
omit [DecidableEq ι] in
theorem all_map_syn (cs : List ι) : (cs.map syn).all X.reply := by
  simp [hreply]

include hreply in
omit [DecidableEq ι] in
theorem allCalls_mend (l : List α) : X.allCalls (X.mend known syn l) = X.allCalls l := by
  induction l with
  | nil => rfl
  | cons m l ih =>
    have hsyn : X.allCalls (((X.calls m).filter (!known ·)).map syn) = [] :=
      allCalls_of_all (all_map_syn hreply _)
    rw [mend, allCalls_cons, allCalls_append, allCalls_append, hsyn, List.append_nil,
      ← allCalls_append, run_append_dropWhile, ih, allCalls_cons]

include hans in
theorem count_allAnswers_mend (l : List α) (c : ι) :
    (X.allAnswers (X.mend known syn l)).count c =
      (X.allAnswers l).count c + ((X.allCalls l).filter (!known ·)).count c := by
  induction l with
  | nil => rfl
  | cons m l ih =>
    have hsyn : ∀ cs : List ι, X.allAnswers (cs.map syn) = cs := by
      intro cs
      simp [allAnswers, List.flatMap_map, hans]
    have hsplit : (X.allAnswers (X.run (X.mend known syn l))).count c +
        (X.allAnswers ((X.mend known syn l).dropWhile X.reply)).count c =
        (X.allAnswers (X.mend known syn l)).count c := by
      rw [← List.count_append, ← allAnswers_append, run_append_dropWhile]
    simp only [mend, allAnswers_cons, allAnswers_append, hsyn, List.count_append, allCalls_cons,
      List.filter_append]
    omega

include hreply hans in
omit [DecidableEq ι] in
/-- A mended history, extended by `e`, answers every call where it belongs, if every call that
counts as known is answered in its run, or is of the newest message and answered at the start of
`e`. -/
theorem near_mend {e : List α} (he : X.Near (fun _ => True) e)
    (hrun : X.Near (fun c => known c ∧ c ∉ X.allAnswers (X.run e)) l)
    (htail : ∀ c ∈ X.allCalls l, known c → c ∈ X.allAnswers (X.run e) → c ∈ X.tailCalls l)
    (hnd : (X.allCalls l).Nodup) :
    X.Near (fun _ => True) (X.mend known syn l ++ e) := by
  induction l with
  | nil => exact he
  | cons m l ih =>
    rw [allCalls_cons, List.nodup_append] at hnd
    have hsyn := all_map_syn hreply ((X.calls m).filter (!known ·))
    have htail' : ∀ c ∈ X.allCalls l, known c → c ∈ X.allAnswers (X.run e) →
        c ∈ X.tailCalls l := by
      intro c hc hk hce
      have := htail c (List.mem_append_right _ hc) hk hce
      simp only [tailCalls] at this
      split_ifs at this with hl
      · exact absurd rfl (hnd.2.2 c this c hc)
      · exact this
    have hrest := ih hrun.2 htail' hnd.2.1
    rw [mend, List.cons_append]
    refine ⟨fun c hc _ => ?_, ?_⟩
    · rw [run_mended hsyn, allAnswers_append, allAnswers_append, run_mend]
      by_cases hk : known c
      · by_cases hce : c ∈ X.allAnswers (X.run e)
        · have hct := htail c (List.mem_append_left _ hc) hk hce
          simp only [tailCalls] at hct
          split_ifs at hct with hl
          · -- nothing but replies follows, so the run goes on into `e`
            have hml : X.mend known syn l = l := by
              simpa [mend] using mend_append_of_all hl []
            have hdrop : (X.mend known syn l).dropWhile X.reply = [] := by
              rw [hml]
              exact List.dropWhile_eq_nil_iff.mpr (List.all_eq_true.mp hl)
            rw [hdrop]
            exact List.mem_append_right _ hce
          · exact absurd rfl (hnd.2.2 c hc c (tailCalls_subset l hct))
        · exact List.mem_append_left _ (List.mem_append_left _ (hrun.1 c hc ⟨hk, hce⟩))
      · refine List.mem_append_left _ (List.mem_append_right _ ?_)
        have hopen : c ∈ (X.calls m).filter (!known ·) := List.mem_filter.mpr ⟨hc, by simp [hk]⟩
        exact List.mem_flatMap.mpr ⟨syn c, List.mem_map_of_mem hopen, by simp [hans]⟩
    · have hfront : (X.run (X.mend known syn l) ++
          ((X.calls m).filter (!known ·)).map syn).all X.reply := by
        rw [List.all_append, all_run, hsyn]
        rfl
      rw [List.append_assoc]
      refine (near_append_of_all hfront).mpr ?_
      rw [← run_append_dropWhile (X := X) (X.mend known syn l), List.append_assoc] at hrest
      exact (near_append_of_all (all_run _)).mp hrest

include hreply hans in
/-- Mending a sound history, with what `e` is about to answer left open, and extending it by `e`
leaves every call with exactly one answer, where it belongs. -/
theorem wellFormed_mend {e : List α} (hl : X.Sound l) (hec : X.allCalls e = [])
    (hfit : X.Fits l (X.allAnswers (X.run e))) (hrest : X.allAnswers e = X.allAnswers (X.run e))
    (hknown : ∀ c, known c ↔ c ∈ X.allAnswers l ∨ c ∈ X.allAnswers (X.run e)) :
    X.WellFormed (X.mend known syn l ++ e) := by
  refine wellFormed_iff.mpr ⟨fun c hc => ?_, near_mend hreply hans ?_ ?_ ?_ hl.nodup⟩
  · rw [allCalls_append, hec, List.append_nil, allCalls_mend hreply] at hc
    have hone := hl.once c hc
    rw [allAnswers_append, List.count_append, count_allAnswers_mend hans, hrest]
    have hopen : ((X.allCalls l).filter (!known ·)).count c = if known c then 0 else 1 := by
      by_cases hk : known c
      · simp [hk, List.count_eq_zero]
      · rw [if_neg hk]
        exact List.count_eq_one_of_mem (hl.nodup.filter _) (List.mem_filter.mpr ⟨hc, by simp [hk]⟩)
    rw [hopen]
    by_cases hce : c ∈ X.allAnswers (X.run e)
    · have h1 := List.count_eq_one_of_mem hfit.nodup hce
      have h0 := List.count_eq_zero.mpr (hfit.open_ c hce)
      rw [if_pos ((hknown c).mpr (.inr hce))]
      omega
    · have h0 := List.count_eq_zero.mpr hce
      by_cases hcl : c ∈ X.allAnswers l
      · have h1 := List.count_pos_iff.mpr hcl
        rw [if_pos ((hknown c).mpr (.inl hcl))]
        omega
      · have h1 := List.count_eq_zero.mpr hcl
        rw [if_neg (fun hk => ((hknown c).mp hk).elim hcl hce)]
        omega
  · have : ∀ e : List α, X.allCalls e = [] → X.Near (fun _ => True) e := by
      intro e he
      induction e with
      | nil => trivial
      | cons m e ih =>
        obtain ⟨hm, he⟩ := List.append_eq_nil_iff.mp he
        exact ⟨fun c hc => absurd hc (by simp [hm]), ih he⟩
    exact this e hec
  · exact hl.near.mono fun c _ hk => ((hknown c).mp hk.1).resolve_right hk.2
  · exact fun c hc _ hce => hfit.tail c hce hc

end Mend

end Exchange

end Horsie.Lib
