import Horsie.Agent.Stream
import Horsie.Lib.Walk

/-!
# Pages of a log

The entries that a reader asked for, nearest to where it stands: the newest of all, those before an
entry, or those after a number. What the reader does not want to see is left out before a page is
cut, so that a page that is not empty has all it can have. Scrolling back needs an entry to scroll
back from, which the log must still hold; reading on does not.
-/

namespace Horsie.Agent

/-! ## What a reader wants -/

inductive LogEntryKind
  | userMessage
  | assistantMessage
  | toolResult
  | hook
  | lifecycle
  | compaction
deriving DecidableEq

def kindOf (entry : AgentLogEntry) : LogEntryKind :=
  match entry.body with
  | .llm m =>
    match m.role with
    | .user => .userMessage
    | .assistant => .assistantMessage
    | .tool => .toolResult
  | .hook _ => .hook
  | .lifecycle _ => .lifecycle
  | .compaction _ => .compaction

/-- The kinds to keep, none of them for all, and whether thinking is dropped from messages. -/
structure LogFilter where
  kinds : List LogEntryKind
  withoutThinking : Bool
deriving DecidableEq

def Message.silent (m : Message) : Message :=
  { m with parts := m.parts.filter fun p =>
      match p with
      | .thinking _ _ => false
      | _ => true }

namespace LogFilter

variable (filter : LogFilter)

def everything : LogFilter := ⟨[], false⟩

def keeps (entry : AgentLogEntry) : Bool :=
  filter.kinds.isEmpty || filter.kinds.contains (kindOf entry)

def redact (entries : List AgentLogEntry) : List AgentLogEntry :=
  if !filter.withoutThinking then entries
  else entries.map fun entry =>
    match entry.body with
    | .llm m => { entry with body := .llm m.silent }
    | _ => entry

end LogFilter

/-- Which end of the log a page is measured from. -/
inductive Anchor
  | tail
  | before (seq : ℕ)
  | after (seq : ℕ)
deriving DecidableEq

structure LogPage where
  entries : List AgentLogEntry
deriving DecidableEq

/-- Where the entry numbered `seq` is, in a log that is sorted by its numbers. -/
def indexOf (log : List AgentLogEntry) (seq : ℕ) : Option ℕ := log.findIdx? (·.seq = seq)

/-- The `max` entries before an index that the filter keeps. -/
def pageBack (log : List AgentLogEntry) (index max : ℕ) (filter : LogFilter) : LogPage :=
  ⟨filter.redact (((log.take index).reverse.filter filter.keeps).take max).reverse⟩

/-- The `max` entries at the anchor that the filter keeps. -/
def page (log : List AgentLogEntry) (anchor : Anchor) (max : ℕ) (filter : LogFilter) : LogPage :=
  match anchor with
  | .tail => pageBack log log.length max filter
  | .before seq =>
    match indexOf log seq with
    | some index => pageBack log index max filter
    | none => ⟨[]⟩
  | .after seq => ⟨filter.redact (((since log seq).filter filter.keeps).take max)⟩

/-! ## What is there to read -/

def LogFilter.kept (filter : LogFilter) (log : List AgentLogEntry) : List AgentLogEntry :=
  filter.redact (log.filter filter.keeps)

/-- The last `n` entries. -/
def lastOf (n : ℕ) (l : List AgentLogEntry) : List AgentLogEntry := l.drop (l.length - n)

def scroll (entries : List AgentLogEntry) : Option Anchor :=
  entries.head?.map fun e => .before e.seq

def readOn (entries : List AgentLogEntry) : Option Anchor :=
  entries.getLast?.map fun e => .after e.seq

/-- The pages of a log: what each anchor gives, and that walks over the pages, back from the tail
or on from a number, end and visit every entry once and in order. -/
structure Paged (log : List AgentLogEntry) (filter : LogFilter) (max : ℕ) : Prop where
  tail : (page log .tail max filter).entries = lastOf max (filter.kept log)
  before : ∀ e ∈ log, (page log (.before e.seq) max filter).entries =
    lastOf max (filter.kept (log.filter (·.seq < e.seq)))
  unknown : ∀ seq, (∀ e ∈ log, e.seq ≠ seq) → (page log (.before seq) max filter).entries = []
  after : ∀ seq, (page log (.after seq) max filter).entries =
    (filter.kept (log.filter (seq < ·.seq))).take max
  back : (∃ pages, Lib.Walk (fun a => (page log a max filter).entries) scroll .tail pages) ∧
    ∀ pages, Lib.Walk (fun a => (page log a max filter).entries) scroll .tail pages →
      pages.reverse.flatten = filter.kept log
  forward : ∀ seq,
    (∃ pages, Lib.Walk (fun a => (page log a max filter).entries) readOn (.after seq) pages) ∧
    ∀ pages, Lib.Walk (fun a => (page log a max filter).entries) readOn (.after seq) pages →
      pages.flatten = filter.kept (log.filter (seq < ·.seq))

section

variable {log l : List AgentLogEntry} {filter : LogFilter} {max seq n : ℕ} {e : AgentLogEntry}
  {anchor : Anchor}

/-! ## Filters -/

def LogFilter.shown (filter : LogFilter) (entry : AgentLogEntry) : AgentLogEntry :=
  if !filter.withoutThinking then entry
  else
    match entry.body with
    | .llm m => { entry with body := .llm m.silent }
    | _ => entry

theorem redact_eq_map : filter.redact l = l.map filter.shown := by
  unfold LogFilter.redact LogFilter.shown
  cases filter.withoutThinking with
  | false => exact (List.map_id l).symm
  | true => rfl

@[simp] theorem seq_shown : (filter.shown e).seq = e.seq := by
  unfold LogFilter.shown
  split_ifs
  · rfl
  · split <;> rfl

theorem kept_eq_map : filter.kept l = (l.filter filter.keeps).map filter.shown := redact_eq_map

theorem mem_kept (h : e ∈ filter.kept l) : ∃ e' ∈ l, e'.seq = e.seq := by
  rw [kept_eq_map] at h
  obtain ⟨e', he', rfl⟩ := List.mem_map.mp h
  exact ⟨e', List.mem_of_mem_filter he', seq_shown.symm⟩

theorem of_mem_kept {p : ℕ → Bool} (h : e ∈ filter.kept (l.filter fun e => p e.seq)) :
    p e.seq = true := by
  rw [kept_eq_map] at h
  obtain ⟨e', he', rfl⟩ := List.mem_map.mp h
  rw [seq_shown]
  exact (List.mem_filter.mp (List.mem_of_mem_filter he')).2

theorem filter_kept (p : ℕ → Bool) :
    (filter.kept l).filter (fun e => p e.seq) = filter.kept (l.filter fun e => p e.seq) := by
  rw [kept_eq_map, kept_eq_map, List.filter_map, List.filter_filter, List.filter_filter]
  congr 1
  refine List.filter_congr fun e _ => ?_
  rw [Function.comp_apply, seq_shown, Bool.and_comm]

theorem sorted_kept (h : l.Pairwise (·.seq < ·.seq)) :
    (filter.kept l).Pairwise (·.seq < ·.seq) := by
  rw [kept_eq_map, List.pairwise_map]
  refine (h.sublist List.filter_sublist).imp fun hlt => ?_
  rw [seq_shown, seq_shown]
  exact hlt

/-! ## What an anchor gives -/

theorem lastOf_eq : (l.reverse.take n).reverse = lastOf n l := by
  rw [List.take_reverse, List.reverse_reverse]
  rfl

theorem pageBack_entries {index : ℕ} :
    (pageBack log index max filter).entries = lastOf max (filter.kept (log.take index)) := by
  unfold pageBack
  rw [redact_eq_map, List.filter_reverse, lastOf_eq, kept_eq_map]
  unfold lastOf
  rw [List.map_drop, List.length_map]

/-- In a sorted log, what comes before an entry is what is numbered below it. -/
theorem take_indexOf (h : log.Pairwise (·.seq < ·.seq)) {index : ℕ}
    (hi : indexOf log seq = some index) : log.take index = log.filter (·.seq < seq) := by
  obtain ⟨hlt, hseq, -⟩ := List.findIdx?_eq_some_iff_getElem.mp hi
  have hseq := of_decide_eq_true hseq
  have hsplit : log = log.take index ++ log[index] :: log.drop (index + 1) := by
    rw [← List.drop_eq_getElem_cons hlt, List.take_append_drop]
  have hsorted := h
  rw [hsplit] at hsorted
  have hfilter := Lib.filter_lt_of_sorted hsorted
  rw [← hsplit, hseq] at hfilter
  exact hfilter.symm

theorem since_eq_filter (h : log.Pairwise (·.seq < ·.seq)) :
    since log seq = log.filter (seq < ·.seq) := by
  unfold since
  induction log with
  | nil => rfl
  | cons e log ih =>
    obtain ⟨hfirst, hrest⟩ := List.pairwise_cons.mp h
    by_cases he : e.seq ≤ seq
    · rw [List.dropWhile_cons, if_pos (decide_eq_true he), ih hrest, List.filter_cons_of_neg]
      simpa using he
    · have hall : (e :: log).filter (fun e => decide (seq < e.seq)) = e :: log := by
        refine List.filter_eq_self.mpr fun e' he' => decide_eq_true ?_
        rcases List.mem_cons.mp he' with rfl | he'
        · exact Nat.lt_of_not_le he
        · exact (Nat.lt_of_not_le he).trans (hfirst e' he')
      rw [List.dropWhile_cons, if_neg (by simpa using he), hall]

theorem page_tail : (page log .tail max filter).entries = lastOf max (filter.kept log) := by
  unfold page
  rw [pageBack_entries, List.take_length]

theorem page_before (h : log.Pairwise (·.seq < ·.seq)) (he : ∃ e ∈ log, e.seq = seq) :
    (page log (.before seq) max filter).entries =
      lastOf max (filter.kept (log.filter (·.seq < seq))) := by
  unfold page
  dsimp only
  cases hi : indexOf log seq with
  | none =>
    obtain ⟨e, he, hseq⟩ := he
    exact absurd (decide_eq_true hseq) (by simpa using List.findIdx?_eq_none_iff.mp hi e he)
  | some index =>
    dsimp only
    rw [pageBack_entries, take_indexOf h hi]

theorem page_unknown (h : ∀ e ∈ log, e.seq ≠ seq) :
    (page log (.before seq) max filter).entries = [] := by
  have hnone : indexOf log seq = none :=
    List.findIdx?_eq_none_iff.mpr fun e he => decide_eq_false (h e he)
  unfold page
  dsimp only
  rw [hnone]

theorem page_after (h : log.Pairwise (·.seq < ·.seq)) :
    (page log (.after seq) max filter).entries =
      (filter.kept (log.filter (seq < ·.seq))).take max := by
  unfold page
  dsimp only
  rw [since_eq_filter h, redact_eq_map, kept_eq_map, List.map_take]

/-! ## Walking -/

def ahead (log : List AgentLogEntry) (filter : LogFilter) : Anchor → List AgentLogEntry
  | .tail => filter.kept log
  | .before seq => filter.kept (log.filter (·.seq < seq))
  | .after seq => filter.kept (log.filter (seq < ·.seq))

def Anchor.Held (log : List AgentLogEntry) : Anchor → Prop
  | .tail => True
  | .before seq => ∃ e ∈ log, e.seq = seq
  | .after _ => False

theorem page_of_held (h : log.Pairwise (·.seq < ·.seq)) (ha : anchor.Held log) :
    (page log anchor max filter).entries = lastOf max (ahead log filter anchor) := by
  cases anchor with
  | tail => exact page_tail
  | before seq => exact page_before h ha
  | after seq => exact absurd ha id

theorem sorted_ahead (h : log.Pairwise (·.seq < ·.seq)) :
    (ahead log filter anchor).Pairwise (·.seq < ·.seq) := by
  cases anchor with
  | tail => exact sorted_kept h
  | before seq => exact sorted_kept (h.sublist List.filter_sublist)
  | after seq => exact sorted_kept (h.sublist List.filter_sublist)

theorem mem_ahead (h : e ∈ ahead log filter anchor) : ∃ e' ∈ log, e'.seq = e.seq := by
  cases anchor with
  | tail => exact mem_kept h
  | before seq | after seq =>
    obtain ⟨e', he', hseq⟩ := mem_kept h
    exact ⟨e', List.mem_of_mem_filter he', hseq⟩

theorem ahead_before (h : log.Pairwise (·.seq < ·.seq)) (ha : anchor.Held log)
    {p q : List AgentLogEntry} (he : ahead log filter anchor = p ++ e :: q) :
    ahead log filter (.before e.seq) = p := by
  have hsorted := @sorted_ahead log filter anchor h
  have hcut := Lib.filter_lt_of_sorted (he ▸ hsorted)
  rw [← he] at hcut
  refine Eq.trans ?_ hcut
  cases anchor with
  | tail => exact (filter_kept fun n => decide (n < e.seq)).symm
  | after seq => exact absurd ha id
  | before seq =>
    refine ((filter_kept fun n => decide (n < e.seq)).trans ?_).symm
    show filter.kept _ = filter.kept _
    rw [List.filter_filter]
    congr 1
    refine List.filter_congr fun e' _ => ?_
    have hlt : e.seq < seq := by
      have hmem : e ∈ ahead log filter (.before seq) := by
        rw [he]
        exact List.mem_append_right _ List.mem_cons_self
      exact of_decide_eq_true (@of_mem_kept log filter e (fun n => decide (n < seq)) hmem)
    rw [← Bool.decide_and]
    exact decide_eq_decide.mpr ⟨fun hboth => hboth.1, fun hbelow => ⟨hbelow, hbelow.trans hlt⟩⟩

theorem ahead_after (h : log.Pairwise (·.seq < ·.seq)) {p q : List AgentLogEntry}
    (he : ahead log filter (.after seq) = p ++ e :: q) : ahead log filter (.after e.seq) = q := by
  have hsorted := @sorted_ahead log filter (.after seq) h
  have hcut := Lib.filter_gt_of_sorted (he ▸ hsorted)
  rw [← he] at hcut
  refine Eq.trans ?_ hcut
  refine ((filter_kept fun n => decide (e.seq < n)).trans ?_).symm
  show filter.kept _ = filter.kept _
  rw [List.filter_filter]
  congr 1
  refine List.filter_congr fun e' _ => ?_
  have hlt : seq < e.seq := by
    have hmem : e ∈ ahead log filter (.after seq) := by
      rw [he]
      exact List.mem_append_right _ List.mem_cons_self
    exact of_decide_eq_true (@of_mem_kept log filter e (fun n => decide (seq < n)) hmem)
  rw [← Bool.decide_and]
  exact decide_eq_decide.mpr ⟨fun hboth => hboth.1, fun habove => ⟨habove, hlt.trans habove⟩⟩

theorem lastOf_eq_nil (hmax : 1 ≤ max) (h : (lastOf max l).head? = none) : l = [] := by
  have hdrop := List.drop_eq_nil_iff.mp (List.head?_eq_none_iff.mp h)
  refine List.eq_nil_of_length_eq_zero ?_
  omega

theorem append_lastOf (l : List AgentLogEntry) :
    l.take (l.length - n) ++ lastOf n l = l := List.take_append_drop _ l

theorem take_eq_nil (hmax : 1 ≤ max) (h : (l.take max).getLast? = none) : l = [] := by
  rcases List.take_eq_nil_iff.mp (List.getLast?_eq_none_iff.mp h) with hzero | hnil
  · omega
  · exact hnil

theorem scroll_cases (h : log.Pairwise (·.seq < ·.seq)) (ha : anchor.Held log) {b : Anchor}
    (hb : scroll (page log anchor max filter).entries = some b) :
    b.Held log ∧ ahead log filter anchor =
      ahead log filter b ++ (page log anchor max filter).entries := by
  obtain ⟨e, he, rfl⟩ := Option.map_eq_some_iff.mp hb
  obtain ⟨rest, hpage⟩ := List.head?_eq_some_iff.mp he
  have hsplit := append_lastOf (n := max) (ahead log filter anchor)
  rw [← page_of_held h ha, hpage] at hsplit
  refine ⟨@mem_ahead log filter e anchor ?_, ?_⟩
  · rw [← hsplit]
    exact List.mem_append_right _ List.mem_cons_self
  · rw [ahead_before h ha hsplit.symm, hpage]
    exact hsplit.symm

theorem readOn_cases (h : log.Pairwise (·.seq < ·.seq)) {b : Anchor}
    (hb : readOn (page log (.after seq) max filter).entries = some b) :
    (∃ seq', b = .after seq') ∧ ahead log filter (.after seq) =
      (page log (.after seq) max filter).entries ++ ahead log filter b := by
  obtain ⟨e, he, rfl⟩ := Option.map_eq_some_iff.mp hb
  obtain ⟨first, hpage⟩ := List.getLast?_eq_some_iff.mp he
  have hsplit := List.take_append_drop max (ahead log filter (.after seq))
  rw [ahead, ← page_after h, hpage, List.append_assoc, List.singleton_append] at hsplit
  refine ⟨⟨e.seq, rfl⟩, ?_⟩
  rw [ahead_after h hsplit.symm, hpage, List.append_assoc, List.singleton_append]
  exact hsplit.symm

end

/-- Every sorted log is paged as it is to be, whatever its first number. -/
theorem log_paged {log : List AgentLogEntry} (h : log.Pairwise (·.seq < ·.seq))
    (filter : LogFilter) {max : ℕ} (hmax : 1 ≤ max) : Paged log filter max := by
  constructor
  case tail => exact page_tail
  case before => exact fun e he => page_before h ⟨e, he, rfl⟩
  case unknown => exact fun seq hseq => page_unknown hseq
  case after => exact fun seq => page_after h
  case back =>
    constructor
    · refine Lib.Walk.exists_of_lt (P := Anchor.Held log)
        (fun a => (ahead log filter a).length) (fun a b ha hb => ?_) trivial
      obtain ⟨hheld, hsplit⟩ := scroll_cases h ha hb
      refine ⟨hheld, ?_⟩
      obtain ⟨e, he, -⟩ := Option.map_eq_some_iff.mp hb
      have hpos := List.length_pos_of_mem (List.mem_of_mem_head? he)
      rw [hsplit, List.length_append]
      omega
    · intro pages hwalk
      refine Lib.Walk.reverse_flatten_eq (P := Anchor.Held log) (r := ahead log filter)
        (fun a ha hnone => ?_) (fun a b ha hb => scroll_cases h ha hb) hwalk trivial
      have hpage := Option.map_eq_none_iff.mp hnone
      rw [page_of_held h ha] at hpage
      exact lastOf_eq_nil hmax hpage
  case forward =>
    intro seq
    constructor
    · refine Lib.Walk.exists_of_lt (P := fun a => ∃ seq, a = .after seq)
        (fun a => (ahead log filter a).length) (fun a b ha hb => ?_) ⟨seq, rfl⟩
      obtain ⟨seq', rfl⟩ := ha
      obtain ⟨hafter, hsplit⟩ := readOn_cases h hb
      refine ⟨hafter, ?_⟩
      obtain ⟨e, he, -⟩ := Option.map_eq_some_iff.mp hb
      have hpos := List.length_pos_of_mem (List.mem_of_mem_getLast? he)
      rw [hsplit, List.length_append]
      omega
    · intro pages hwalk
      refine Lib.Walk.flatten_eq (P := fun a => ∃ seq, a = .after seq) (r := ahead log filter)
        (fun a ha hnone => ?_) (fun a b ha hb => ?_) hwalk ⟨seq, rfl⟩
      · obtain ⟨seq', rfl⟩ := ha
        have hpage := Option.map_eq_none_iff.mp hnone
        rw [page_after h] at hpage
        exact take_eq_nil hmax hpage
      · obtain ⟨seq', rfl⟩ := ha
        exact readOn_cases h hb

/-- A log whose front is gone, with a gap in its numbers. -/
def exampleLog : List AgentLogEntry :=
  [⟨100, 1, .lifecycle (.turnBegan [] [])⟩, ⟨101, 2, .llm ⟨"m", .user, [], 2, none⟩⟩,
    ⟨105, 3, .lifecycle (.turnEnded .ended)⟩, ⟨106, 4, .llm ⟨"n", .user, [], 4, none⟩⟩]

theorem log_paged_example : Paged exampleLog ⟨[.userMessage], true⟩ 1 :=
  log_paged (by decide) ⟨[.userMessage], true⟩ (by decide)

/-- Before a number that the log does not hold there is nothing, although there are entries. -/
theorem nothing_before_unknown : ¬ ∀ (log : List AgentLogEntry) (filter : LogFilter)
    (max seq : ℕ), log.Pairwise (·.seq < ·.seq) → 1 ≤ max →
      (page log (.before seq) max filter).entries =
        lastOf max (filter.kept (log.filter (·.seq < seq))) := by
  intro h
  have hpage := h exampleLog .everything 1 103 (by decide) (by decide)
  cases hpage

end Horsie.Agent
