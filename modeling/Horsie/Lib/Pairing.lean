import Horsie.Lib.Exchange
import Mathlib.Data.List.Dedup

/-!
# Answers before anything else

A strict reader of a conversation takes answers only to the calls that are open, one each, and takes
nothing else while one is open. What it takes is told by the ids that are open (`Strict`). Answers
in a row are taken if they are of different open calls (`strict_answers`); which histories are taken
as they are written down is `strict_iff`.
-/

namespace Horsie.Lib

universe u v

variable {ι : Type u} [DecidableEq ι]

/-- What is read: an answer to a call, or something else with the calls it makes. -/
inductive Said (ι : Type u)
  | answer (id : ι)
  | other (calls : List ι)

/-- The reader gets to the end, with nothing open there. -/
def Strict : List ι → List (Said ι) → Prop
  | opened, [] => opened = []
  | opened, .answer id :: rest => id ∈ opened ∧ Strict (opened.erase id) rest
  | opened, .other calls :: rest => opened = [] ∧ Strict calls.dedup rest

instance decidableStrict : (opened : List ι) → (l : List (Said ι)) → Decidable (Strict opened l)
  | opened, [] => inferInstanceAs (Decidable (opened = []))
  | opened, .answer id :: rest =>
    have := decidableStrict (opened.erase id) rest
    inferInstanceAs (Decidable (id ∈ opened ∧ Strict (opened.erase id) rest))
  | opened, .other calls :: rest =>
    have := decidableStrict calls.dedup rest
    inferInstanceAs (Decidable (opened = [] ∧ Strict calls.dedup rest))

variable {opened ids : List ι} {rest : List (Said ι)}

theorem strict_answers (h : opened.Nodup) : Strict opened (ids.map .answer ++ rest) ↔
    (ids.Nodup ∧ ids ⊆ opened) ∧ Strict (opened.diff ids) rest := by
  induction ids generalizing opened with
  | nil =>
    rw [List.diff_nil]
    exact (and_iff_right ⟨List.nodup_nil, List.nil_subset _⟩).symm
  | cons id ids ih =>
    rw [List.map_cons, List.cons_append, Strict, ih (h.erase id), List.diff_cons]
    constructor
    · rintro ⟨hid, ⟨hnodup, hsub⟩, hrest⟩
      refine ⟨⟨List.nodup_cons.mpr ⟨fun hmem => ?_, hnodup⟩, ?_⟩, hrest⟩
      · exact (h.not_mem_erase) (hsub hmem)
      · exact List.cons_subset.mpr ⟨hid, fun x hx => List.mem_of_mem_erase (hsub hx)⟩
    · rintro ⟨⟨hnodup, hsub⟩, hrest⟩
      obtain ⟨hid, hsub⟩ := List.cons_subset.mp hsub
      obtain ⟨hnot, hnodup⟩ := List.nodup_cons.mp hnodup
      refine ⟨hid, ⟨hnodup, fun x hx => ?_⟩, hrest⟩
      have hne : x ≠ id := by
        rintro rfl
        exact hnot hx
      exact (List.mem_erase_of_ne hne).mpr (hsub hx)

/-! ## Histories that are written down -/

section

variable {α : Type v} {X : Exchange α ι} {ids : α → List ι} {tail : α → List (Said ι)}
  {plain loud : α → Prop}
  {cs : List ι} {l : List α}

variable (X) in
/-- Every call is answered exactly once in the run of replies after it. -/
def AnsweredOnce (l : List α) : Prop :=
  ∀ pre m post, l = pre ++ m :: post → ∀ c ∈ X.calls m, (X.allAnswers (X.run post)).count c = 1

variable (X) in
/-- Answers are in replies, to calls `cs` of the last message that is no reply. -/
def PlacedFrom (cs : List ι) : List α → Prop
  | [] => True
  | m :: l =>
    if X.reply m then (∀ id ∈ X.answers m, id ∈ cs) ∧ PlacedFrom cs l
    else X.answers m = [] ∧ PlacedFrom (X.calls m) l

variable (X) in
/-- A reply that says anything else has no answer behind it in its run. -/
def Quiet (loud : α → Prop) : List α → Prop
  | [] => True
  | m :: l => (X.reply m = true → loud m → X.allAnswers (X.run l) = []) ∧ Quiet loud l

variable (X ids tail plain loud) in
/-- How messages are written down: answers first, then the rest. Of a reply the rest makes no calls;
of another message it makes the calls of the message. Of a message that is not `plain` an answer is
written twice. -/
structure Writes : Prop where
  answers : ∀ m, plain m → ids m = X.answers m
  doubled : ∀ m, ¬ plain m → ¬ (ids m).Nodup
  reply : ∀ m, X.reply m = true → ∀ s ∈ tail m, s = .other []
  loud : ∀ m, X.reply m = true → (tail m = [] ↔ ¬ loud m)
  other : ∀ m, X.reply m = false → X.answers m = [] →
    tail m = [] ∧ X.calls m = [] ∨ tail m = [.other (X.calls m)]

variable (ids tail) in
def said (m : α) : List (Said ι) := (ids m).map .answer ++ tail m

omit [DecidableEq ι] in
theorem run_cons_of_reply {m : α} (h : X.reply m = true) : X.run (m :: l) = m :: X.run l :=
  List.takeWhile_cons_of_pos h

omit [DecidableEq ι] in
theorem run_cons_of_other {m : α} (h : X.reply m = false) : X.run (m :: l) = [] :=
  List.takeWhile_cons_of_neg (by rw [h]; exact Bool.false_ne_true)

theorem AnsweredOnce.behind {m : α} (h : AnsweredOnce X (m :: l)) : AnsweredOnce X l :=
  fun pre k post hl => h (m :: pre) k post (by rw [hl, List.cons_append])

theorem answeredOnce_nil : AnsweredOnce X [] := by
  intro pre m post h
  exact absurd h.symm (List.append_ne_nil_of_right_ne_nil _ (List.cons_ne_nil _ _))

theorem AnsweredOnce.cons {m : α} (hm : ∀ c ∈ X.calls m, (X.allAnswers (X.run l)).count c = 1)
    (hl : AnsweredOnce X l) : AnsweredOnce X (m :: l) := by
  intro pre k post h
  cases pre with
  | nil =>
    cases h
    exact hm
  | cons _ pre => exact hl pre k post (List.cons.inj h).2

/-- Sayings that make no calls are read where nothing is open. -/
theorem strict_silent {said : List (Said ι)} (h : ∀ s ∈ said, s = .other []) (hne : said ≠ []) :
    Strict opened (said ++ rest) ↔ opened = [] ∧ Strict [] rest := by
  induction said generalizing opened with
  | nil => exact absurd rfl hne
  | cons s said ih =>
    obtain ⟨rfl, hsaid⟩ := List.forall_mem_cons.mp h
    rw [List.cons_append, Strict, List.dedup_nil]
    by_cases hnil : said = []
    · rw [hnil, List.nil_append]
    · rw [ih hsaid hnil, and_iff_right rfl]

omit [DecidableEq ι] in
/-- The answers a history begins with are to the calls that are asked for there. -/
theorem PlacedFrom.mem_run (h : PlacedFrom X cs l) {c : ι} (hc : c ∈ X.allAnswers (X.run l)) :
    c ∈ cs := by
  induction l with
  | nil => cases hc
  | cons m l ih =>
    rw [PlacedFrom] at h
    cases hreply : X.reply m with
    | false =>
      rw [run_cons_of_other hreply] at hc
      cases hc
    | true =>
      rw [if_pos hreply] at h
      rw [run_cons_of_reply hreply, Exchange.allAnswers_cons] at hc
      rcases List.mem_append.mp hc with hc | hc
      · exact h.1 c hc
      · exact ih h.2 hc

/-- What the reader has open before a history: some of the calls `cs`, and these the history begins
by answering, once each. -/
structure Awaits (X : Exchange α ι) (opened cs : List ι) (l : List α) : Prop where
  nodup : opened.Nodup
  subset : opened ⊆ cs
  count : ∀ c ∈ cs, (X.allAnswers (X.run l)).count c = if c ∈ opened then 1 else 0

namespace Awaits

variable {m : α}

theorem nil_of_empty (h : Awaits X opened cs l) (hrun : X.allAnswers (X.run l) = []) :
    opened = [] := by
  refine List.eq_nil_iff_forall_not_mem.mpr fun c hc => ?_
  have hcount := h.count c (h.subset hc)
  rw [hrun, if_pos hc] at hcount
  cases hcount

/-- Where nothing is open, the placed answers a history begins with are none. -/
theorem silent_of_nil (h : Awaits X [] cs l) (hplaced : PlacedFrom X cs l) :
    X.allAnswers (X.run l) = [] := by
  refine List.eq_nil_iff_forall_not_mem.mpr fun c hc => ?_
  have hcount := h.count c (hplaced.mem_run hc)
  rw [if_neg List.not_mem_nil] at hcount
  exact List.count_eq_zero.mp hcount hc

theorem count_reply (h : Awaits X opened cs (m :: l)) (hreply : X.reply m = true) {c : ι}
    (hc : c ∈ cs) : (X.answers m).count c + (X.allAnswers (X.run l)).count c =
      if c ∈ opened then 1 else 0 := by
  have hcount := h.count c hc
  rwa [run_cons_of_reply hreply, Exchange.allAnswers_cons, List.count_append] at hcount

theorem answers_iff (h : Awaits X opened cs (m :: l)) (hreply : X.reply m = true) :
    (X.answers m).Nodup ∧ X.answers m ⊆ opened ↔ ∀ id ∈ X.answers m, id ∈ cs := by
  constructor
  · intro hanswers id hid
    exact h.subset (hanswers.2 hid)
  · intro hplaced
    have hone : ∀ id ∈ X.answers m, id ∈ opened ∧ (X.answers m).count id ≤ 1 := by
      intro id hid
      have hcount := h.count_reply hreply (hplaced id hid)
      have hpos := List.count_pos_iff.mpr hid
      split_ifs at hcount with hopen
      · exact ⟨hopen, by omega⟩
      · omega
    refine ⟨List.nodup_iff_count_le_one.mpr fun id => ?_, fun id hid => (hone id hid).1⟩
    by_cases hid : id ∈ X.answers m
    · exact (hone id hid).2
    · rw [List.count_eq_zero.mpr hid]
      exact Nat.zero_le 1

theorem reply (h : Awaits X opened cs (m :: l)) (hreply : X.reply m = true)
    (hanswers : (X.answers m).Nodup ∧ X.answers m ⊆ opened) :
    Awaits X (opened.diff (X.answers m)) cs l where
  nodup := h.nodup.diff
  subset _ hc := h.subset (h.nodup.mem_sdiff_iff.mp hc).1
  count c hc := by
    have hcount := h.count_reply hreply hc
    rw [if_congr h.nodup.mem_sdiff_iff rfl rfl]
    by_cases hid : c ∈ X.answers m
    · have hone := List.count_eq_one_of_mem hanswers.1 hid
      rw [if_pos (hanswers.2 hid)] at hcount
      rw [if_neg fun hboth => hboth.2 hid]
      omega
    · rw [List.count_eq_zero.mpr hid, Nat.zero_add] at hcount
      rw [hcount, if_congr (and_iff_left hid) rfl rfl]

/-- Before anything is read, nothing is open. -/
theorem start (l : List α) : Awaits X [] [] l where
  nodup := List.nodup_nil
  subset := List.nil_subset _
  count _ hc := absurd hc List.not_mem_nil

/-- What is open behind a message that is no reply. -/
theorem asked (h : AnsweredOnce X (m :: l)) : Awaits X (X.calls m).dedup (X.calls m) l where
  nodup := List.nodup_dedup _
  subset _ hc := List.mem_dedup.mp hc
  count c hc := by
    rw [if_pos (List.mem_dedup.mpr hc)]
    exact h [] m l rfl c hc

end Awaits

/-- A history in which every call is answered once is read to its end exactly if no answer is
written twice, all are placed, and its replies are quiet. -/
theorem strict_iff (hw : Writes X ids tail plain loud) (ha : Awaits X opened cs l)
    (h : AnsweredOnce X l) : Strict opened (l.flatMap (said ids tail)) ↔
      (∀ m ∈ l, plain m) ∧ PlacedFrom X cs l ∧ Quiet X loud l := by
  induction l generalizing opened cs with
  | nil =>
    show opened = [] ↔ _
    exact iff_of_true (ha.nil_of_empty rfl)
      ⟨fun m hm => absurd hm List.not_mem_nil, trivial, trivial⟩
  | cons m l ih =>
    rw [List.flatMap_cons, said, List.append_assoc, strict_answers ha.nodup, PlacedFrom, Quiet,
      List.forall_mem_cons]
    by_cases hplain : plain m
    · rw [hw.answers m hplain, and_iff_right hplain]
      cases hreply : X.reply m with
      | false =>
        obtain rfl : opened = [] := ha.nil_of_empty (by rw [run_cons_of_other hreply]; rfl)
        rw [if_neg Bool.false_ne_true, and_iff_right (a := false = true → _)
          fun hfalse => absurd hfalse Bool.false_ne_true]
        by_cases hanswers : X.answers m = []
        · have hstep : Strict ([].diff (X.answers m)) (tail m ++ l.flatMap (said ids tail)) ↔
              Strict (X.calls m).dedup (l.flatMap (said ids tail)) := by
            rw [hanswers, List.diff_nil]
            rcases hw.other m hreply hanswers with ⟨htail, hcalls⟩ | htail
            · rw [htail, hcalls, List.dedup_nil, List.nil_append]
            · rw [htail, List.singleton_append, Strict, and_iff_right rfl]
          rw [hstep, ih (.asked h) h.behind, hanswers, and_iff_right rfl,
            and_iff_right ⟨List.nodup_nil, List.nil_subset _⟩]
        · refine iff_of_false (fun hread => ?_) fun hplaced => hanswers hplaced.2.1.1
          exact hanswers (List.subset_nil.mp hread.1.2)
      | true =>
        rw [if_pos rfl, ha.answers_iff hreply, and_assoc, and_left_comm]
        refine and_congr_right fun hplaced => ?_
        have hnext := ha.reply hreply ((ha.answers_iff hreply).mpr hplaced)
        have hrest := ih hnext h.behind
        by_cases htail : tail m = []
        · rw [htail, List.nil_append, hrest]
          have hquiet : true = true → loud m → X.allAnswers (X.run l) = [] :=
            fun _ hloud => absurd hloud ((hw.loud m hreply).mp htail)
          rw [and_iff_right hquiet]
        · rw [strict_silent (hw.reply m hreply) htail]
          constructor
          · rintro ⟨hopened, hread⟩
            rw [hopened] at hnext hrest
            obtain ⟨hwritten, hplaced', hquiet⟩ := hrest.mp hread
            exact ⟨hwritten, hplaced', fun _ _ => hnext.silent_of_nil hplaced', hquiet⟩
          · rintro ⟨hwritten, hplaced', hquiet, hquiet'⟩
            have hloud : loud m := not_not.mp (mt (hw.loud m hreply).mpr htail)
            have hopened := hnext.nil_of_empty (hquiet rfl hloud)
            rw [hopened] at hrest
            exact ⟨hopened, hrest.mpr ⟨hwritten, hplaced', hquiet'⟩⟩
    · refine iff_of_false (fun hread => ?_) fun hplaced => hplain hplaced.1.1
      exact hw.doubled m hplain hread.1.1

end

end Horsie.Lib
