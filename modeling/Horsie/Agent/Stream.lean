import Horsie.Agent.Deltas
import Horsie.Agent.Barrier

/-!
# Reading the log as it is written

A reader follows an agent's log through reads that each start where the one before ended. Its
cursor pairs the newest entry it holds with the number of chunks it holds of the message still being
written. The entries of all reads are the log from the first cursor on, whatever happens in between
(`entries_exact`). The chunks are those in flight until the process is loaded anew under a reader
that holds some: the chunks it counts are gone, and the count alone does not tell it
(`stream_reading_exact`).
-/

namespace Horsie.Agent

/-! ## Reading -/

/-- How far a reader has got: its newest entry, and the chunks it holds behind that. -/
structure Cursor where
  entrySeq : ℕ
  deltaSeq : ℕ
deriving DecidableEq

/-- What a read without a cursor covers. -/
structure ReplayWindow where
  hasMoreBefore : Bool
  earliestSeq : Option ℕ
deriving DecidableEq

/-- What a reader gets for one step forward. -/
structure ReadOutcome where
  window : Option ReplayWindow
  entries : List AgentLogEntry
  deltas : List String
  /-- The reader holds more chunks than there are: they are of another run. -/
  resetDeltas : Bool
  cursor : Cursor
deriving DecidableEq

namespace ReadOutcome

def nothing (cursor : Cursor) : ReadOutcome := ⟨none, [], [], false, cursor⟩

def isEmpty (out : ReadOutcome) : Bool :=
  out.entries.isEmpty && out.deltas.isEmpty && !out.resetDeltas

end ReadOutcome

/-- How many entries a reader without a cursor gets at most. -/
def replayCap : ℕ := 5000

/-- The newest entries, and whether any were left behind. -/
def replayWindow (log : List AgentLogEntry) : List AgentLogEntry × Bool :=
  if log.length ≤ replayCap then (log, false) else (log.drop (log.length - replayCap), true)

/-- Everything numbered above `after`. -/
def since (log : List AgentLogEntry) (after : ℕ) : List AgentLogEntry :=
  log.dropWhile (·.seq ≤ after)

/-- Answer a read from `after`, with these chunks in flight. -/
def AgentState.readFrom (s : AgentState) (after : Option Cursor) (deltas : List String) :
    ReadOutcome :=
  match after with
  | none =>
    let (entries, truncated) := replayWindow s.log
    { window := some ⟨truncated, entries.head?.map (·.seq)⟩
      entries := entries
      deltas := deltas
      resetDeltas := false
      cursor := ⟨s.tailSeq.getD 0, deltas.length⟩ }
  | some cursor =>
    let entries := since s.log cursor.entrySeq
    if !entries.isEmpty then
      -- the chunks belong behind entries this reader only now receives
      { window := none
        entries := entries
        deltas := []
        resetDeltas := false
        cursor := ⟨(entries.getLast?.map (·.seq)).getD cursor.entrySeq, 0⟩ }
    else if cursor.deltaSeq > deltas.length then
      { window := none
        entries := []
        deltas := deltas
        resetDeltas := true
        cursor := ⟨cursor.entrySeq, deltas.length⟩ }
    else if cursor.deltaSeq = deltas.length then
      .nothing cursor
    else
      { window := none
        entries := []
        deltas := deltas.drop cursor.deltaSeq
        resetDeltas := false
        cursor := ⟨cursor.entrySeq, deltas.length⟩ }

/-! ## The stream -/

/-- What a stream sends. -/
inductive MessageFrame
  | window (hasMoreBefore : Bool) (earliestSeq : Option ℕ)
  | entry (e : AgentLogEntry)
  | delta (entrySeq deltaSeq : ℕ) (text : String) (reset : Bool)
deriving DecidableEq

/-- The frames of a read from `cursor`. Chunks are numbered from the reader's own position, and the
first of them tells of a reset. -/
def ReadOutcome.frames (out : ReadOutcome) (announced : Bool) (cursor : Option Cursor) :
    List MessageFrame :=
  let base := if out.resetDeltas then 0 else (cursor.map (·.deltaSeq)).getD 0
  ((if announced then none else out.window).toList.map
      fun w => .window w.hasMoreBefore w.earliestSeq) ++
    out.entries.map .entry ++
    out.deltas.mapIdx fun offset text =>
      .delta out.cursor.entrySeq (min (base + offset + 1) (2 ^ 32 - 1)) text
        (out.resetDeltas && offset == 0)

/-- A stream's end of the reading, and what its client holds. -/
structure Reader where
  cursor : Option Cursor
  announced : Bool
  start : ℕ
  entries : List AgentLogEntry
  /-- The chunks it holds since its newest entry, or since the last reset it was told of. -/
  held : List String
  stale : Bool

namespace Reader

def connect (after : Option Cursor) (held : List String) : Reader where
  cursor := after
  announced := after.isSome
  start := (after.map (·.entrySeq + 1)).getD 0
  entries := []
  held := held
  stale := false

def receive (r : Reader) : MessageFrame → Reader
  | .window _ _ => r
  | .entry e => { r with entries := r.entries ++ [e], held := [] }
  | .delta _ _ text reset => { r with held := (if reset then [] else r.held) ++ [text] }

/-- One read: the client receives its frames, and the cursor advances if there were any. -/
def read (r : Reader) (s : AgentState) (deltas : List String) : Reader :=
  let out := s.readFrom r.cursor deltas
  { (out.frames r.announced r.cursor).foldl receive r with
    announced := r.announced || out.window.isSome
    cursor := if out.isEmpty then r.cursor else some out.cursor
    start := if r.cursor.isNone then s.log.length - out.entries.length else r.start
    stale := false }

end Reader

/-! ## What one read does -/

section

variable {s : AgentState} {r : Reader} {deltas : List String}

theorem since_eq_drop (h : s.Numbered) (n : ℕ) : since s.log n = s.log.drop (n + 1) := by
  have hall : ∀ (l : List AgentLogEntry) (a m : ℕ), l.map (·.seq) = List.range' a m →
      l.dropWhile (·.seq ≤ n) = l.drop (n + 1 - a) := by
    intro l
    induction l with
    | nil => simp
    | cons e l ih =>
      intro a m hm
      obtain _ | m := m
      · simp at hm
      · obtain ⟨he, hl⟩ : e.seq = a ∧ l.map (·.seq) = List.range' (a + 1) m :=
          List.cons.inj (hm.trans (List.range'_succ ..))
        by_cases hn : e.seq ≤ n
        · have hk : n + 1 - a = (n + 1 - (a + 1)) + 1 := by omega
          rw [List.dropWhile_cons, if_pos (by simpa using hn), ih _ _ hl, hk, List.drop_succ_cons]
        · rw [List.dropWhile_cons, if_neg (by simpa using hn), show n + 1 - a = 0 by omega]
          rfl
  exact hall s.log 0 s.nextSeq (h.seqs.trans List.range_eq_range')

theorem foldl_receive_entries (es : List AgentLogEntry) (r : Reader) :
    (es.map MessageFrame.entry).foldl Reader.receive r =
      { r with entries := r.entries ++ es, held := if es.isEmpty then r.held else [] } := by
  induction es generalizing r with
  | nil => simp
  | cons e es ih =>
    rw [List.map_cons, List.foldl_cons, ih]
    simp [Reader.receive]

theorem foldl_receive_chunks (seq : ℕ) (f : ℕ → ℕ) (texts : List String) (r : Reader) :
    (texts.mapIdx fun i text => MessageFrame.delta seq (f i) text false).foldl Reader.receive r =
      { r with held := r.held ++ texts } := by
  induction texts generalizing f r with
  | nil => simp
  | cons text texts ih =>
    rw [List.mapIdx_cons, List.foldl_cons, ih fun i => f (i + 1)]
    simp [Reader.receive]

theorem foldl_receive_deltas (seq : ℕ) (f : ℕ → ℕ) (reset : Bool) (texts : List String)
    (r : Reader) :
    (texts.mapIdx fun i text => MessageFrame.delta seq (f i) text (reset && i == 0)).foldl
        Reader.receive r =
      { r with held := (if reset && !texts.isEmpty then [] else r.held) ++ texts } := by
  cases texts with
  | nil => simp
  | cons text texts =>
    have htail : ∀ i : ℕ, (reset && i + 1 == 0) = false := fun i => by simp
    rw [List.mapIdx_cons, List.foldl_cons]
    simp only [htail]
    rw [foldl_receive_chunks seq fun i => f (i + 1)]
    simp [Reader.receive]

theorem foldl_receive_frames (out : ReadOutcome) (announced : Bool) (cursor : Option Cursor)
    (r : Reader) : (out.frames announced cursor).foldl Reader.receive r =
      { r with
        entries := r.entries ++ out.entries
        held := (if out.resetDeltas && !out.deltas.isEmpty then [] else
          if out.entries.isEmpty then r.held else []) ++ out.deltas } := by
  have hwindow : ∀ (w : Option ReplayWindow) (r : Reader), ((w.toList.map
      fun w => MessageFrame.window w.hasMoreBefore w.earliestSeq)).foldl Reader.receive r = r := by
    intro w r
    cases w <;> rfl
  rw [ReadOutcome.frames, List.foldl_append, List.foldl_append, hwindow, foldl_receive_entries,
    foldl_receive_deltas _ fun i => min (_ + i + 1) (2 ^ 32 - 1)]

/-- What a read from a cursor answers: new entries, a reset, nothing, or the chunks behind. -/
theorem readFrom_cases (s : AgentState) (c : Cursor) (deltas : List String) :
    (since s.log c.entrySeq ≠ [] ∧ s.readFrom (some c) deltas =
      ⟨none, since s.log c.entrySeq, [], false,
        ⟨((since s.log c.entrySeq).getLast?.map (·.seq)).getD c.entrySeq, 0⟩⟩) ∨
    since s.log c.entrySeq = [] ∧
      (deltas.length < c.deltaSeq ∧ s.readFrom (some c) deltas =
          ⟨none, [], deltas, true, ⟨c.entrySeq, deltas.length⟩⟩ ∨
        c.deltaSeq = deltas.length ∧ s.readFrom (some c) deltas = .nothing c ∨
        c.deltaSeq < deltas.length ∧ s.readFrom (some c) deltas =
          ⟨none, [], deltas.drop c.deltaSeq, false, ⟨c.entrySeq, deltas.length⟩⟩) := by
  unfold AgentState.readFrom
  dsimp only
  by_cases hnew : since s.log c.entrySeq = []
  · refine .inr ⟨hnew, ?_⟩
    rw [if_neg (by simp [hnew])]
    rcases Nat.lt_trichotomy c.deltaSeq deltas.length with h | h | h
    · rw [if_neg (by omega), if_neg (by omega)]
      exact .inr (.inr ⟨h, rfl⟩)
    · rw [if_neg (by omega), if_pos h]
      exact .inr (.inl ⟨h, rfl⟩)
    · rw [if_pos h]
      exact .inl ⟨h, rfl⟩
  · rw [if_pos (by simpa using hnew)]
    exact .inl ⟨hnew, rfl⟩

theorem readFrom_some (s : AgentState) (c : Cursor) (deltas : List String) :
    (s.readFrom (some c) deltas).entries = since s.log c.entrySeq ∧
    (s.readFrom (some c) deltas).cursor.entrySeq =
      ((since s.log c.entrySeq).getLast?.map (·.seq)).getD c.entrySeq := by
  rcases readFrom_cases s c deltas with ⟨-, h⟩ | ⟨hnil, ⟨-, h⟩ | ⟨-, h⟩ | ⟨-, h⟩⟩
  · rw [h]
    exact ⟨rfl, rfl⟩
  all_goals
    rw [h, hnil]
    exact ⟨rfl, rfl⟩

theorem last_seq (h : s.Numbered) {e : AgentLogEntry} (he : s.log.getLast? = some e) :
    e.seq + 1 = s.log.length := by
  have hlast : (s.log.map (·.seq)).getLast? = some e.seq := by rw [List.getLast?_map, he]; rfl
  rw [h.seqs, List.getLast?_range] at hlast
  rw [h.length]
  split_ifs at hlast with hz
  have := Option.some.inj hlast
  omega

theorem replayWindow_eq_drop (log : List AgentLogEntry) :
    (replayWindow log).1 = log.drop (log.length - (replayWindow log).1.length) ∧
      ((replayWindow log).1 = [] → log = []) := by
  have hpos : 0 < replayCap := by decide
  unfold replayWindow
  generalize replayCap = cap at hpos ⊢
  split_ifs with hcap
  · simp
  · have hlen : log.length - (log.drop (log.length - cap)).length = log.length - cap := by
      rw [List.length_drop]
      omega
    refine ⟨by rw [hlen], fun hnil => ?_⟩
    have := List.drop_eq_nil_iff.mp hnil
    omega

theorem read_eq (r : Reader) (s : AgentState) (deltas : List String) :
    (r.read s deltas).entries = r.entries ++ (s.readFrom r.cursor deltas).entries ∧
    (r.read s deltas).held =
      (if (s.readFrom r.cursor deltas).resetDeltas &&
          !(s.readFrom r.cursor deltas).deltas.isEmpty then [] else
        if (s.readFrom r.cursor deltas).entries.isEmpty then r.held else []) ++
        (s.readFrom r.cursor deltas).deltas := by
  constructor <;> simp only [Reader.read, foldl_receive_frames]

end

/-! ## The reader's entries -/

/-- The entries a reader holds are a part of the log, and the cursor is where they end. -/
structure Reader.Follows (r : Reader) (log : List AgentLogEntry) : Prop where
  part : r.entries <+: log.drop r.start
  place : ∀ c ∈ r.cursor, r.start + r.entries.length = c.entrySeq + 1
  fresh : r.cursor = none → r.entries = [] ∧ r.start = 0

variable {r : Reader}

theorem Reader.Follows.grow {log log' : List AgentLogEntry} (h : r.Follows log)
    (hl : log <+: log') : r.Follows log' := by
  obtain ⟨rest, rfl⟩ := hl
  refine ⟨h.part.trans ?_, h.place, h.fresh⟩
  rw [List.drop_append]
  exact List.prefix_append _ _

theorem Reader.follows_connect (after : Option Cursor) (held : List String)
    (log : List AgentLogEntry) : (Reader.connect after held).Follows log := by
  refine ⟨List.nil_prefix, fun c hc => ?_, fun hnone => ⟨rfl, ?_⟩⟩
  · obtain rfl : after = some c := hc
    rfl
  · obtain rfl : after = none := hnone
    rfl

/-- A read brings the rest of the log. Chunks are in flight only behind an entry. -/
theorem Reader.Follows.read {s : AgentState} {deltas : List String}
    (h : r.Follows s.log) (hn : s.Numbered) (hd : deltas ≠ [] → s.log ≠ []) :
    (r.read s deltas).entries = s.log.drop (r.read s deltas).start ∧
      (r.read s deltas).Follows s.log := by
  have hentries := (read_eq r s deltas).1
  cases hc : r.cursor with
  | none =>
    obtain ⟨hnil, -⟩ := h.fresh hc
    obtain ⟨hwindow, hempty⟩ := replayWindow_eq_drop s.log
    set k := s.log.length - (replayWindow s.log).1.length with hk
    have hstart : (r.read s deltas).start = k := by
      simp only [Reader.read, hc, Option.isNone_none, if_true]
      rfl
    have hall : (r.read s deltas).entries = s.log.drop k := by
      rw [hentries, hnil, hc, List.nil_append, ← hwindow]
      rfl
    have hquiet : (s.readFrom none deltas).isEmpty = true ↔ s.log = [] := by
      constructor
      · intro h
        simp only [ReadOutcome.isEmpty, Bool.and_eq_true, List.isEmpty_iff] at h
        exact hempty h.1.1
      · intro hlog
        have hdeltas : deltas = [] := by
          by_contra hne
          exact hd hne hlog
        simp [AgentState.readFrom, replayWindow, ReadOutcome.isEmpty, hlog, hdeltas]
    have hcursor : (r.read s deltas).cursor =
        if s.log = [] then none else some ⟨s.tailSeq.getD 0, deltas.length⟩ := by
      simp only [Reader.read, hc, hquiet]
      rfl
    refine ⟨by rw [hall, hstart], by simp only [hall, hstart, List.prefix_rfl], fun c hcur => ?_,
      fun hnone => ?_⟩
    · rw [hcursor] at hcur
      split_ifs at hcur with hlog
      · cases hcur
      · cases hcur
        obtain ⟨e, he⟩ := Option.ne_none_iff_exists'.mp (mt List.getLast?_eq_none_iff.mp hlog)
        have hle : k ≤ s.log.length := Nat.sub_le _ _
        have hlast := last_seq hn he
        simp only [hstart, hall, List.length_drop, AgentState.tailSeq, he, Option.map_some,
          Option.getD_some]
        omega
    · rw [hcursor] at hnone
      split_ifs at hnone with hlog
      rw [hall, hstart, hk, hlog]
      exact ⟨rfl, rfl⟩
  | some c =>
    have hplace := h.place c hc
    obtain ⟨hsince, hseq⟩ := readFrom_some s c deltas
    rw [since_eq_drop hn] at hsince hseq
    have hstart : (r.read s deltas).start = r.start := by
      simp only [Reader.read, hc, Option.isNone_some]
      rfl
    obtain ⟨rest, hrest⟩ := h.part
    have hdrop : s.log.drop (c.entrySeq + 1) = rest := by
      rw [← hplace, ← List.drop_drop, ← hrest, List.drop_left]
    have hall : (r.read s deltas).entries = s.log.drop r.start := by
      rw [hentries, hc, hsince, hdrop, hrest]
    refine ⟨by rw [hall, hstart], by simp only [hall, hstart, List.prefix_rfl], fun c' hcur => ?_,
      fun hnone => ?_⟩
    · have hcur' : c'.entrySeq = (s.readFrom (some c) deltas).cursor.entrySeq := by
        simp only [Reader.read, hc] at hcur
        split_ifs at hcur with hem
        · simp only [ReadOutcome.isEmpty, Bool.and_eq_true, List.isEmpty_iff, hsince] at hem
          rw [hseq, hem.1.1, ← Option.some.inj hcur]
          rfl
        · rw [Option.some.inj hcur]
      rw [hstart, hall, hcur', hseq]
      by_cases hnew : s.log.drop (c.entrySeq + 1) = []
      · have hlen := congrArg List.length hrest
        rw [← hdrop, hnew, List.append_nil] at hlen
        rw [hnew, ← hlen, hplace]
        rfl
      · have hlt : c.entrySeq + 1 < s.log.length := by
          by_contra hge
          exact hnew (List.drop_eq_nil_iff.mpr (Nat.not_lt.mp hge))
        have hlog : s.log ≠ [] := List.ne_nil_of_length_pos (by omega)
        obtain ⟨e, he⟩ := Option.ne_none_iff_exists'.mp (mt List.getLast?_eq_none_iff.mp hlog)
        have hlast := last_seq hn he
        rw [List.getLast?_drop, if_neg (by omega), he, List.length_drop, Option.map_some,
          Option.getD_some]
        omega
    · simp only [Reader.read, hc] at hnone
      split_ifs at hnone

/-! ## The reader's chunks -/

def Reader.Counts (r : Reader) : Prop :=
  (r.cursor = none → r.held = []) ∧ ∀ c ∈ r.cursor, c.deltaSeq = r.held.length

def Reader.Behind (r : Reader) (log : List AgentLogEntry) : Prop :=
  ∀ c ∈ r.cursor, since log c.entrySeq ≠ []

/-- The chunks a read leaves with the reader are the first of those in flight, and all of them
where it brought no entry. -/
def Reader.InStep (r r' : Reader) (deltas : List String) : Prop :=
  r'.held <+: deltas ∧ (r'.entries = r.entries → r'.held = deltas)

/-- The chunks a reader holds are the first of those in flight, or visibly not: there are fewer,
and one to tell it with. -/
def Reader.Tells (r : Reader) (deltas : List String) : Prop :=
  r.held <+: deltas ∨ deltas ≠ [] ∧ deltas.length < r.held.length

theorem read_first (s : AgentState) (deltas : List String) (hr : r.Counts)
    (hc : r.cursor = none) : (r.read s deltas).held = deltas ∧ (r.read s deltas).Counts := by
  have hheld : (r.read s deltas).held = deltas := by
    rw [(read_eq r s deltas).2, hc, hr.1 hc]
    simp [AgentState.readFrom]
  refine ⟨hheld, fun hnone => ?_, fun c hcur => ?_⟩
  · simp only [Reader.read, hc] at hnone
    split_ifs at hnone with hem
    simp only [ReadOutcome.isEmpty, Bool.and_eq_true, List.isEmpty_iff] at hem
    rw [hheld]
    exact hem.1.2
  · simp only [Reader.read, hc] at hcur
    split_ifs at hcur
    · cases hcur
    · cases hcur
      rw [hheld]
      rfl

theorem read_next {s : AgentState} {deltas : List String} (hr : r.Counts) {c : Cursor}
    (hc : r.cursor = some c) :
    (r.InStep (r.read s deltas) deltas ↔ (r.Behind s.log ∨ r.Tells deltas)) ∧
      (r.InStep (r.read s deltas) deltas → (r.read s deltas).Counts) := by
  have hcount := hr.2 c hc
  obtain ⟨hentries, hheld⟩ := read_eq r s deltas
  have hcursor : (r.read s deltas).cursor = if (s.readFrom r.cursor deltas).isEmpty then r.cursor
      else some (s.readFrom r.cursor deltas).cursor := rfl
  rw [hc] at hentries hheld hcursor
  -- what a read leaves is counted where its cursor says how much it is
  have hcounts : ∀ {c'}, (r.read s deltas).cursor = some c' →
      c'.deltaSeq = (r.read s deltas).held.length → (r.read s deltas).Counts := by
    intro c' hcur hlen
    refine ⟨fun hnone => ?_, fun d hd => ?_⟩
    · rw [hcur] at hnone
      cases hnone
    · cases hcur.symm.trans hd
      exact hlen
  have hbehind : r.Behind s.log ↔ since s.log c.entrySeq ≠ [] :=
    ⟨fun h => h c hc, fun h d hd => Option.some.inj (hc.symm.trans hd) ▸ h⟩
  rw [hbehind]
  rcases readFrom_cases s c deltas with ⟨hnew, h⟩ | ⟨hnil, ⟨hlt, h⟩ | ⟨heq, h⟩ | ⟨hlt, h⟩⟩
  · rw [h] at hentries hheld hcursor
    have hnone : (r.read s deltas).held = [] := by simpa [hnew] using hheld
    have hmore : (r.read s deltas).entries ≠ r.entries := by simpa [hentries] using hnew
    refine ⟨iff_of_true ⟨hnone ▸ List.nil_prefix, fun he => absurd he hmore⟩ (.inl hnew),
      fun _ => @hcounts ⟨_, 0⟩ (by simpa [ReadOutcome.isEmpty, hnew] using hcursor) ?_⟩
    rw [hnone]
    rfl
  · rw [h] at hentries hheld hcursor
    rw [hcount] at hlt
    by_cases hd : deltas = []
    · have hkept : (r.read s deltas).held = r.held := by simpa [hd] using hheld
      have hne : r.held ≠ [] := List.ne_nil_of_length_pos (by omega)
      have hwrong : ¬ r.InStep (r.read s deltas) deltas := fun hin => by
        have hpre := hin.1
        rw [hkept, hd] at hpre
        exact hne (List.prefix_nil.mp hpre)
      refine ⟨iff_of_false hwrong ?_, fun hin => absurd hin hwrong⟩
      rintro (hnew | hpre | ⟨hne', -⟩)
      · exact hnew hnil
      · rw [hd] at hpre
        exact hne (List.prefix_nil.mp hpre)
      · exact hne' hd
    · have hall : (r.read s deltas).held = deltas := by simpa [hd] using hheld
      refine ⟨iff_of_true ⟨⟨[], by rw [hall, List.append_nil]⟩, fun _ => hall⟩
          (.inr (.inr ⟨hd, hlt⟩)),
        fun _ => @hcounts ⟨_, _⟩ (by simpa [ReadOutcome.isEmpty] using hcursor) ?_⟩
      rw [hall]
  · rw [h] at hentries hheld hcursor
    have hkept : (r.read s deltas).held = r.held := by
      simpa [ReadOutcome.nothing] using hheld
    have hlen : r.held.length = deltas.length := hcount.symm.trans heq
    refine ⟨⟨fun hin => .inr (.inl (hkept ▸ hin.1)), ?_⟩, fun _ => @hcounts c ?_ (hkept ▸ hcount)⟩
    · rintro (hnew | hpre | ⟨-, hlt⟩)
      · exact absurd hnil hnew
      · rw [Reader.InStep, hkept]
        exact ⟨hpre, fun _ => hpre.eq_of_length hlen⟩
      · omega
    · simpa [ReadOutcome.nothing, ReadOutcome.isEmpty] using hcursor
  · rw [h] at hentries hheld hcursor
    have hkept : (r.read s deltas).held = r.held ++ deltas.drop r.held.length := by
      simpa [hcount] using hheld
    have hlen : (r.read s deltas).held.length = deltas.length := by
      rw [hkept, List.length_append, List.length_drop]
      omega
    refine ⟨⟨fun hin => .inr (.inl ?_), ?_⟩, fun _ => @hcounts ⟨c.entrySeq, _⟩ ?_ hlen.symm⟩
    · exact (List.prefix_append _ _).trans (hkept ▸ hin.1)
    · rintro (hnew | ⟨rest, rfl⟩ | ⟨-, hlt'⟩)
      · exact absurd hnil hnew
      · rw [List.drop_left] at hkept
        rw [Reader.InStep, hkept]
        exact ⟨List.prefix_rfl, fun _ => rfl⟩
      · omega
    · have hmore : deltas.drop c.deltaSeq ≠ [] := by
        rw [ne_eq, List.drop_eq_nil_iff]
        omega
      simpa [ReadOutcome.isEmpty, hmore] using hcursor

/-! ## Chunks follow an entry -/

def AgentCommand.midTurn (c : AgentCommand) : Bool :=
  c.chunk?.isSome || match c with
    | .queue (.startPrepared _) => true
    | _ => false

def World.RunsSpeak (w : World) : Label → Prop
  | .load _ _ queued => ∀ c ∈ queued, c.chunk? = none
  | .send c => c.chunk?.isSome → w.runs ≠ []
  | .emit _ _ | .finish _ | .prepared _ | .handle _ | .die _ => True

def chunkSystem (params : AgentParams) : Lib.System World Label :=
  (snapshotSystem params).restrict World.RunsSpeak

/-- Nothing of a turn is under way. -/
structure World.Resting (w : World) : Prop where
  runs : w.runs = []
  prepares : w.prepares = []
  mailbox : ∀ m ∈ w.mailbox, m.cmd.midTurn = false
  deltas : w.actor.deltas = []

theorem AgentCommand.midTurn_of_external {c : AgentCommand} (hc : c.external = true)
    (hn : c.chunk? = none) : c.midTurn = false := by
  cases c with
  | queue q =>
    cases q with
    | startPrepared => simp [external] at hc
    | enqueue | drain | answer => rfl
  | log l => simp [midTurn, hn]
  | run | timer | taskList | read | seed | shutdown => rfl

section

variable {params : AgentParams} {w w' : World}

theorem log_of_begins {s : AgentState} {es : List AgentDomainEvent} {c an : List String} {t : ℕ}
    (hs : ∀ e ∈ es, ∀ st seed, e ≠ .seeded st seed) (h : .turnBegan c an t ∈ es) :
    (s.applyAll es).log ≠ [] := by
  obtain ⟨pre, post, rfl⟩ := List.append_of_mem h
  rw [AgentState.applyAll_append]
  have hpost : ∀ e ∈ post, ∀ st seed, e ≠ .seeded st seed := fun e he =>
    hs e (List.mem_append_right _ (List.mem_cons_of_mem _ he))
  have hgrow := (((s.applyAll pre).applyEvent (.turnBegan c an t)).grows_applyAll
    hpost).log_le.length_le
  rw [AgentState.applyAll_cons]
  refine List.ne_nil_of_length_pos (lt_of_lt_of_le ?_ hgrow)
  simp [AgentState.applyEvent, AgentState.applyBody, AgentState.beginTurn]

theorem idle_of_empty (hw : (chunkSystem params).Reachable w) (hempty : w.state.log = []) :
    w.Resting := by
  refine hw.invariant (I := fun w => w.state.log = [] → w.Resting) (fun s hs => ?_)
    (fun s l t hr h hs => ?_) hempty
  · rw [show s = World.boot from hs]
    exact fun _ => ⟨rfl, rfl, fun m hm => absurd hm List.not_mem_nil, rfl⟩
  · obtain ⟨⟨hstep, -⟩, hspeak⟩ := hs
    have hr : (agentSystem params).Reachable s := hr.unrestrict.unrestrict
    intro hlog
    have hrest : s.Resting := h (List.prefix_nil.mp (hlog ▸ log_le hr hstep))
    cases hstep with
    | @load env ready queued hq =>
      have hidle : AgentActor.selfContinues params s.state = false := by
        simp [AgentActor.selfContinues, show s.state.log = [] from hlog]
      rcases (AgentActor.new ready).onRecoveryComplete_cases params env s.state with
        ⟨-, ha, hruns⟩ | ⟨hself, -⟩
      · refine ⟨by simp [World.load, hruns], rfl, fun m hm => ?_, by simp [World.load, ha]; rfl⟩
        rcases List.mem_append.mp hm with hm | hm
        · obtain ⟨c, hc, rfl⟩ := List.mem_map.mp hm
          exact AgentCommand.midTurn_of_external (hq c hc) (hspeak c hc)
        · obtain ⟨c, hc, rfl⟩ := List.mem_map.mp hm
          rw [AgentActor.onRecoveryComplete_tells _ _ _ _ c hc]
          rfl
      · rw [hidle] at hself
        cases hself
    | @send cmd _ hc =>
      refine ⟨hrest.runs, hrest.prepares, fun m hm => ?_, hrest.deltas⟩
      rcases List.mem_append.mp hm with hm | hm
      · exact hrest.mailbox m hm
      · rw [List.mem_singleton.mp hm]
        refine AgentCommand.midTurn_of_external hc ?_
        by_contra hchunk
        exact hspeak (Option.isSome_iff_ne_none.mpr hchunk) hrest.runs
    | emit _ hr' => exact absurd hrest.runs (by simp [hr'])
    | finish _ hr' => exact absurd hrest.runs (by simp [hr'])
    | prepared _ hp => exact absurd hrest.prepares (by simp [hp])
    | @handle env mail rest _ hm =>
      have hmid := hrest.mailbox mail (hm ▸ List.mem_cons_self)
      have hchunk : mail.cmd.chunk? = none := by
        simp only [AgentCommand.midTurn, Bool.or_eq_false_iff] at hmid
        exact Option.not_isSome_iff_eq_none.mp (by simp [hmid.1])
      have hprep : mail.isPrepared = false := by
        unfold Mail.isPrepared
        split
        · rename_i hcmd
          simp [AgentCommand.midTurn, hcmd] at hmid
        all_goals rfl
      have hquiet : ¬ (s.effect params env mail).Begins := by
        rintro ⟨c, an, t, hmem⟩
        rcases effect_seeds hr env hm with hseeds | ⟨-, st, seed, m, he⟩
        · exact log_of_begins hseeds hmem hlog
        · simp [he] at hmem
      have hstart := effect_starting hr env hm hprep
      have hnone : (s.effect params env mail).runs = [] ∧
          (s.effect params env mail).prepares = [] := by
        constructor
        · by_contra hruns
          exact hquiet (hstart.begins (.inl hruns))
        · by_contra hpreps
          exact hquiet (hstart.begins (.inr hpreps))
      refine ⟨by simp [World.perform, hrest.runs, hnone.1],
        by simp [World.perform, hrest.prepares, hnone.2], fun m hmem => ?_, ?_⟩
      · rcases List.mem_append.mp hmem with hmem | hmem
        · exact hrest.mailbox m (hm ▸ List.mem_cons_of_mem _ hmem)
        · obtain ⟨c, hc, rfl⟩ := List.mem_map.mp hmem
          rw [((fence hr).launch params env hm).modest c hc]
          rfl
      · rw [perform_deltas, hchunk, hrest.deltas]
        split_ifs <;> rfl
    | die => exact ⟨rfl, rfl, fun m hm => absurd hm List.not_mem_nil, rfl⟩

end

/-! ## An agent and a reader -/

structure Stream where
  world : World
  reader : Reader

/-- A step of the agent, a client that connects, or one read. -/
inductive StreamLabel
  | step (l : Label)
  | connect (after : Option Cursor) (held : List String)
  | read

/-- The reader after a step of the agent: a load is behind its back. -/
def Reader.beside (r : Reader) : Label → Reader
  | .load _ _ _ => { r with stale := true }
  | .send _ | .emit _ _ | .finish _ | .prepared _ | .handle _ | .die _ => r

/-- The cursor names an entry of the log and counts what the reader holds: the first of the chunks
in flight, unless there are entries to come first. -/
structure Reader.Placed (r : Reader) (w : World) : Prop where
  counts : r.Counts
  within : ∀ c ∈ r.cursor, c.entrySeq < w.state.log.length
  holds : r.stale = false → w.stopped = false → r.Behind w.state.log ∨ r.held <+: w.actor.deltas

inductive Stream.Step (params : AgentParams) (x : Stream) : StreamLabel → Stream → Prop
  | step {l : Label} {w' : World} (h : (chunkSystem params).Step x.world l w') :
      Step params x (.step l) ⟨w', x.reader.beside l⟩
  | connect {after : Option Cursor} {held : List String}
      (h : (Reader.connect after held).Placed x.world) :
      Step params x (.connect after held) ⟨x.world, .connect after held⟩
  | read (h : x.world.stopped = false) :
      Step params x .read ⟨x.world, x.reader.read x.world.state x.world.actor.deltas⟩

def streamSystem (params : AgentParams) : Lib.System Stream StreamLabel where
  Init x := x = ⟨World.boot, .connect none []⟩
  Step := Stream.Step params

/-- A read brings all entries behind the first cursor, and leaves the reader with the first of the
chunks in flight. -/
def Stream.ReadsRight (x : Stream) (l : StreamLabel) (y : Stream) : Prop :=
  l = .read → y.reader.entries = y.world.state.log.drop y.reader.start ∧
    x.reader.InStep y.reader y.world.actor.deltas

/-- The first read behind a load finds entries to bring first, or chunks that tell the reader where
it is. -/
def Stream.Detects (x : Stream) (l : StreamLabel) : Prop :=
  l = .read → x.reader.stale = true →
    x.reader.Behind x.world.state.log ∨ x.reader.Tells x.world.actor.deltas

section

variable {params : AgentParams} {x y : Stream}

theorem world_reachable (hx : (streamSystem params).Reachable x) :
    (chunkSystem params).Reachable x.world := by
  induction hx with
  | init h =>
    obtain rfl := h
    exact .init rfl
  | step _ h ih =>
    cases h with
    | step h => exact ih.step h
    | connect | read => exact ih

variable {w : World}

theorem numbered_log (hw : (chunkSystem params).Reachable w) : w.state.Numbered := by
  rw [state_eq_journal hw.unrestrict.unrestrict]
  exact (journal_written hw.unrestrict).numbered

variable {r : Reader}

theorem behind_iff (hw : (chunkSystem params).Reachable w) :
    r.Behind w.state.log ↔ ∀ c ∈ r.cursor, c.entrySeq + 1 < w.state.log.length := by
  unfold Reader.Behind
  simp only [since_eq_drop (numbered_log hw), ne_eq, List.drop_eq_nil_iff, Nat.not_le]

theorem entries_exact (hx : (streamSystem params).Reachable x)
    (hs : (streamSystem params).Step x .read y) :
    y.reader.entries = y.world.state.log.drop y.reader.start := by
  have hfollows : ∀ x, (streamSystem params).Reachable x → x.reader.Follows x.world.state.log := by
    intro x hx
    induction hx with
    | init h =>
      obtain rfl := h
      exact Reader.follows_connect none [] _
    | @step x l y hx h ih =>
      have hw := world_reachable hx
      cases h with
      | @step l w' h =>
        have hgrow := ih.grow (log_le hw.unrestrict.unrestrict h.1.1)
        cases l <;> exact ⟨hgrow.part, hgrow.place, hgrow.fresh⟩
      | connect => exact Reader.follows_connect _ _ _
      | read => exact (ih.read (numbered_log hw) fun hd hlog => hd (idle_of_empty hw hlog).deltas).2
  have hw := world_reachable hx
  cases hs with
  | read =>
    exact ((hfollows x hx).read (numbered_log hw)
      fun hd hlog => hd (idle_of_empty hw hlog).deltas).1

/-- A step of the agent that goes on leaves a reader in its place: the log only grows, and the
chunks in flight are added to, or dropped behind an entry that is yet to come. -/
theorem Reader.Placed.step {w' : World} (hw : (chunkSystem params).Reachable w)
    (h : r.Placed w) {l : Label} (hs : (chunkSystem params).Step w l w') :
    (r.beside l).Placed w' := by
  have hgrow := log_le hw.unrestrict.unrestrict hs.1.1
  have hwithin : ∀ c ∈ r.cursor, c.entrySeq < w'.state.log.length := fun c hc =>
    lt_of_lt_of_le (h.within c hc) hgrow.length_le
  have hcounts : (r.beside l).Counts := by
    have := h.counts
    cases l <;> exact this
  have hcursor : (r.beside l).cursor = r.cursor := by cases l <;> rfl
  refine ⟨hcounts, by rwa [hcursor], fun hstale hgoes => ?_⟩
  by_cases hload : ∃ env ready queued, l = .load env ready queued
  · obtain ⟨env, ready, queued, rfl⟩ := hload
    cases hstale
  by_cases hdie : ∃ env, l = .die env
  · obtain ⟨env, rfl⟩ := hdie
    cases hs.1.1
    cases hgoes
  push Not at hload hdie
  have hbeside : r.beside l = r := by
    cases l with
    | load => exact absurd rfl (hload _ _ _)
    | send | emit | finish | prepared | handle | die => rfl
  rw [hbeside] at hstale ⊢
  have hw' : (chunkSystem params).Reachable w' := hw.step hs
  have hlive : w.stopped = false := by
    cases hs.1.1 with
    | load => exact absurd rfl (hload _ _ _)
    | send hlive | emit hlive | finish hlive | prepared hlive | handle hlive | die hlive =>
      exact hlive
  rw [behind_iff hw']
  rcases deltas_or_entry hw.unrestrict.unrestrict hs.1.1 hload hdie with hlog | hdeltas
  · refine .inl fun c hc => ?_
    have := h.within c hc
    omega
  · rcases h.holds hstale hlive with hbehind | hheld
    · refine .inl fun c hc => lt_of_lt_of_le ?_ hgrow.length_le
      exact (behind_iff hw).mp hbehind c hc
    · exact .inr (hheld.trans hdeltas)

theorem Reader.Placed.read (hw : (chunkSystem params).Reachable w)
    (h : r.Placed w) :
    (r.InStep (r.read w.state w.actor.deltas) w.actor.deltas ↔
        r.Behind w.state.log ∨ r.Tells w.actor.deltas) ∧
      (r.InStep (r.read w.state w.actor.deltas) w.actor.deltas →
        (r.read w.state w.actor.deltas).Placed w) := by
  have hn := numbered_log hw
  have hwithin : ∀ c ∈ (r.read w.state w.actor.deltas).cursor,
      c.entrySeq < w.state.log.length := by
    intro c hc
    simp only [Reader.read] at hc
    split_ifs at hc with hquiet
    · exact h.within c hc
    · cases hc
      cases hcur : r.cursor with
      | none =>
        -- a read that brings something finds an entry: chunks are in flight only behind one
        have hlog : w.state.log ≠ [] := by
          intro hlog
          have hdeltas := (idle_of_empty hw hlog).deltas
          simp [hcur, AgentState.readFrom, replayWindow, ReadOutcome.isEmpty, hlog,
            hdeltas] at hquiet
        obtain ⟨e, he⟩ := Option.ne_none_iff_exists'.mp (mt List.getLast?_eq_none_iff.mp hlog)
        have hlast := last_seq hn he
        simp only [AgentState.readFrom, AgentState.tailSeq, he, Option.map_some, Option.getD_some]
        omega
      | some d =>
        rw [(readFrom_some w.state d w.actor.deltas).2, since_eq_drop hn]
        by_cases hnew : d.entrySeq + 1 < w.state.log.length
        · have hlog : w.state.log ≠ [] := List.ne_nil_of_length_pos (by omega)
          obtain ⟨e, he⟩ := Option.ne_none_iff_exists'.mp (mt List.getLast?_eq_none_iff.mp hlog)
          have hlast := last_seq hn he
          rw [List.getLast?_drop, if_neg (by omega), he, Option.map_some, Option.getD_some]
          omega
        · rw [List.drop_eq_nil_of_le (Nat.not_lt.mp hnew)]
          exact h.within d hcur
  cases hcur : r.cursor with
  | none =>
    obtain ⟨hheld, hcounts⟩ := read_first w.state w.actor.deltas h.counts hcur
    have hall : r.InStep (r.read w.state w.actor.deltas) w.actor.deltas := by
      unfold Reader.InStep
      rw [hheld]
      exact ⟨List.prefix_rfl, fun _ => rfl⟩
    have hbehind : r.Behind w.state.log := fun c hc => absurd (hcur.symm.trans hc) (by simp)
    exact ⟨iff_of_true hall (.inl hbehind),
      fun hin => ⟨hcounts, hwithin, fun _ _ => .inr hin.1⟩⟩
  | some c =>
    obtain ⟨hiff, hcounts⟩ := read_next h.counts hcur
    exact ⟨hiff, fun hin => ⟨hcounts hin, hwithin, fun _ _ => .inr hin.1⟩⟩

theorem placed_step (hx : (streamSystem params).Reachable x) (h : x.reader.Placed x.world)
    {l : StreamLabel} (hs : (streamSystem params).Step x l y) (hq : x.ReadsRight l y) :
    y.reader.Placed y.world := by
  have hw := world_reachable hx
  cases hs with
  | step hs => exact h.step hw hs
  | connect hc => exact hc
  | read => exact (h.read hw).2 (hq rfl).2

theorem reads_right_iff (hx : (streamSystem params).Reachable x) (h : x.reader.Placed x.world)
    {l : StreamLabel} (hs : (streamSystem params).Step x l y) : x.ReadsRight l y ↔ x.Detects l := by
  have hw := world_reachable hx
  cases hs with
  | step | connect => exact iff_of_true (fun hl => by cases hl) (fun hl => by cases hl)
  | read hlive =>
    obtain ⟨hiff, -⟩ := h.read hw
    have hentries := entries_exact hx (.read hlive)
    constructor
    · exact fun hright _ _ => hiff.mp (hright rfl).2
    · intro hdetects _
      refine ⟨hentries, hiff.mpr ?_⟩
      by_cases hstale : x.reader.stale = true
      · exact hdetects rfl hstale
      · rcases h.holds (Bool.not_eq_true _ ▸ hstale) hlive with hbehind | hheld
        · exact .inl hbehind
        · exact .inr (.inl hheld)

/-- In every run, all reads bring exactly the entries behind the first cursor and leave the reader
with the first of the chunks in flight if and only if every read behind a load detects it: there
are entries to bring first, or the chunks now in flight begin with those the reader holds, or they
are fewer than those, and there is one. -/
theorem stream_reading_exact {tr : List (Stream × StreamLabel × Stream)}
    (h : (streamSystem params).Exec ⟨World.boot, .connect none []⟩ tr x) :
    (∀ z ∈ tr, z.1.ReadsRight z.2.1 z.2.2) ↔ ∀ z ∈ tr, z.1.Detects z.2.1 := by
  refine h.right_iff (P := fun x => x.reader.Placed x.world)
    (fun s l t hr hP hs hq => placed_step hr hP hs hq)
    (fun s l t hr hP hs => reads_right_iff hr hP hs) (.init rfl) ?_
  exact ⟨⟨fun _ => rfl, fun c hc => absurd hc (by simp [Reader.connect])⟩,
    fun c hc => absurd hc (by simp [Reader.connect]),
    fun _ _ => .inr List.nil_prefix⟩

end

/-! ## A load under a reader -/

def AgentCommand.unseeded : AgentCommand → Bool
  | .seed _ => false
  | .queue _ | .run _ | .timer _ | .taskList _ | .read | .log _ | .shutdown => true

/-- The steps of an agent that nobody seeds and whose chunks come from its runs. -/
def World.Speaks (w : World) : Label → Prop
  | .load _ _ queued => ∀ c ∈ queued, c.unseeded = true ∧ c.chunk? = none
  | .send c => c.unseeded = true ∧ (c.chunk?.isSome → w.runs ≠ [])
  | .emit _ _ | .finish _ | .prepared _ | .handle _ | .die _ => True

instance (w : World) : DecidablePred w.Speaks
  | .load _ _ queued => inferInstanceAs
      (Decidable (∀ c ∈ queued, c.unseeded = true ∧ c.chunk? = none))
  | .send c => inferInstanceAs
      (Decidable (c.unseeded = true ∧ (c.chunk?.isSome → w.runs ≠ [])))
  | .emit _ _ | .finish _ | .prepared _ | .handle _ | .die _ => inferInstanceAs (Decidable True)

instance (x : Stream) : DecidablePred x.Detects
  | .step _ | .connect _ _ => isTrue fun h => by cases h
  | .read => decidable_of_iff
      (x.reader.stale = true → (∀ c ∈ x.reader.cursor, since x.world.state.log c.entrySeq ≠ []) ∨
        (x.reader.held <+: x.world.actor.deltas ∨
          x.world.actor.deltas ≠ [] ∧ x.world.actor.deltas.length < x.reader.held.length))
      ⟨fun h _ => h, fun h => h rfl⟩

def Stream.step? (params : AgentParams) (x : Stream) : StreamLabel → Option Stream
  | .step l => if x.world.Speaks l then
      (x.world.step? params l).map fun w => ⟨w, x.reader.beside l⟩ else none
  | .connect _ _ => none
  | .read => if x.world.stopped = false then
      some ⟨x.world, x.reader.read x.world.state x.world.actor.deltas⟩ else none

theorem AgentCommand.seedsWritten_of_unseeded {c : AgentCommand} (h : c.unseeded = true) :
    c.SeedsWritten := by
  cases c with
  | seed => cases h
  | queue | run | timer | taskList | read | log | shutdown => trivial

theorem Stream.step?_sound {params : AgentParams} (x : Stream) (l : StreamLabel) (y : Stream)
    (h : x.step? params l = some y) : (streamSystem params).Step x l y := by
  cases l with
  | step l =>
    obtain ⟨hspeaks, h⟩ := Option.ite_none_right_eq_some.mp h
    obtain ⟨w, hw, rfl⟩ := Option.map_eq_some_iff.mp h
    refine .step ⟨⟨World.step?_sound hw, ?_⟩, ?_⟩
    · cases l with
      | load => exact fun c hc => AgentCommand.seedsWritten_of_unseeded (hspeaks c hc).1
      | send => exact AgentCommand.seedsWritten_of_unseeded hspeaks.1
      | emit | finish | prepared | handle | die => trivial
    · cases l with
      | load => exact fun c hc => (hspeaks c hc).2
      | send => exact hspeaks.2
      | emit | finish | prepared | handle | die => trivial
  | connect => cases h
  | read =>
    obtain ⟨hlive, h⟩ := Option.ite_none_right_eq_some.mp h
    exact Option.some.inj h ▸ .read hlive

/-- What a run sends while the provider answers. -/
def chunk (text : String) : List StreamLabel :=
  [.step (.send (.log (.recordDelta text))), .step (.handle ⟨0, "m", "a", "t", false⟩)]

/-- A user message is answered in two chunks, each followed by a read, and the process dies and is
loaded anew. -/
def brokenOff : List StreamLabel :=
  let env : Env := ⟨0, "m", "a", "t", false⟩
  [StreamLabel.step (.load env true [.queue (.enqueue (.user "u0" "hello" []) false)]),
    .step (.handle env), .step (.handle env)] ++ chunk "Let me " ++ [StreamLabel.read] ++
    chunk "see." ++
    [StreamLabel.read, .step (.send .read), .step (.die env), .step (.load env true [])]

/-- The run goes on with one chunk, and the reader reads. -/
def toldStream : Stream :=
  (Lib.System.steps? (Lib.System.guarded? Stream.Detects (Stream.step? ⟨false, false, false⟩))
    ⟨World.boot, .connect none []⟩ (brokenOff ++ chunk "Well" ++ [StreamLabel.read])).get
    (by decide +kernel)

/-- The chunk is told from those the reader holds, because it is only one. -/
theorem stream_reading_reset :
    ∃ tr, (streamSystem ⟨false, false, false⟩).Exec ⟨World.boot, .connect none []⟩ tr toldStream ∧
      tr.map (·.2.1) = brokenOff ++ chunk "Well" ++ [StreamLabel.read] ∧
      toldStream.reader.held = ["Well"] ∧ ∀ z ∈ tr, z.1.ReadsRight z.2.1 z.2.2 := by
  obtain ⟨tr, hexec, hmap, hg⟩ := Lib.System.exec_of_guarded?
    (M := streamSystem ⟨false, false, false⟩) (fun x l y _ => x.step?_sound l y)
    (show Lib.System.steps? _ _ _ = some toldStream from (Option.some_get _).symm)
  exact ⟨tr, hexec, hmap, by decide +kernel, (stream_reading_exact hexec).mpr hg⟩

/-- The run goes on with as many chunks as the reader holds. -/
def untoldStream : Stream :=
  (Lib.System.steps? (Stream.step? ⟨false, false, false⟩) ⟨World.boot, .connect none []⟩
    (brokenOff ++ chunk "Well" ++ chunk ", no.")).get (by decide +kernel)

/-- They are taken for those it holds. -/
theorem stale_chunks_kept :
    ∃ tr y, (streamSystem ⟨false, false, false⟩).Exec ⟨World.boot, .connect none []⟩ tr y ∧
      ∃ z ∈ tr, ¬ z.1.ReadsRight z.2.1 z.2.2 := by
  obtain ⟨tr, hexec, -⟩ := Lib.System.exec_of_steps?
    (M := streamSystem ⟨false, false, false⟩) Stream.step?_sound
    (show Lib.System.steps? _ _ _ = some untoldStream from (Option.some_get _).symm)
  have hwrong : ¬ (untoldStream.reader.read untoldStream.world.state
      untoldStream.world.actor.deltas).held <+: untoldStream.world.actor.deltas := by
    decide +kernel
  exact ⟨_, _, hexec.snoc (.read (by decide +kernel)), _,
    List.mem_append_right _ (List.mem_singleton_self _), fun h => hwrong (h rfl).2.1⟩

end Horsie.Agent
