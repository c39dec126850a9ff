import Horsie.Agent.Paging
import Horsie.AgentCore.Tool
import Horsie.Lib.Unicode

/-!
# Searching a log

A search looks for the query in a lower-cased copy of an entry's text, and shows what stands around
the place where the copy has it in the text itself. The two are the same place where lower-casing
keeps the size of what comes before, as it does with plain text (`Findable.of_plain`). Elsewhere the
place can be another, or inside a character, and there is no snippet to be had.
-/

namespace Horsie.Agent

open Lib (Casing bytes charsBefore find FirstAt)

/-! ## The search -/

/-- How much of a matched entry a search hit carries. -/
def snippetChars : ℕ := 200

structure LogSearchHit where
  seq : ℕ
  atMs : ℕ
  kind : LogEntryKind
  snippet : String
deriving DecidableEq

def ContentPart.searchText : ContentPart → String
  | .text t | .thinking t _ => t
  | .toolResult result => result.output
  | .subAgentResult part => part.text
  | .toolCall call => call.name ++ " " ++ call.input.render
  | .artifact a =>
    match a.filename with
    | some name => name ++ " " ++ a.mediaType
    | none => a.mediaType

variable (U : Casing) (json : AgentLogBody → String)

/-- Everything in an entry a search looks at. What is not a message is read as its JSON. -/
def entryText (entry : AgentLogEntry) : String :=
  match entry.body with
  | .llm m => "\n".intercalate (m.parts.map ContentPart.searchText)
  | body => json body

def snippetStart (place : ℕ) : ℕ := place - snippetChars / 2

def snippetEnd (text : List Char) (place : ℕ) : ℕ :=
  min (snippetStart place + snippetChars) text.length

/-- `snippetChars` of the text around a place, with ellipses where it was cut. -/
def around (text : List Char) (place : ℕ) : List Char :=
  (if 0 < snippetStart place then ['…'] else []) ++
    ((text.take (snippetEnd text place)).drop (snippetStart place) ++
      if snippetEnd text place < text.length then ['…'] else [])

/-- The text around a byte offset. A text is not cut inside a character: the program panics. -/
def snippet (text : String) (offset : ℕ) : Option String :=
  (charsBefore text.toList offset).map fun place => String.ofList (around text.toList place)

/-- Where the lower case of the text has what is looked for. -/
def foundAt (needle : List Char) (e : AgentLogEntry) : Option ℕ :=
  find needle (U.toLowercase (entryText json e).toList)

/-- The first `max` hits of what is looked for: nothing where the search panics. -/
def searchFor (needle : List Char) (filter : LogFilter) :
    ℕ → List AgentLogEntry → Option (List LogSearchHit)
  | 0, _ | _ + 1, [] => some []
  | max + 1, e :: log =>
    if filter.keeps e then
      match foundAt U json needle e with
      | some offset =>
        (snippet (entryText json e) offset).bind fun s =>
          (searchFor needle filter max log).map (⟨e.seq, e.atMs, kindOf e, s⟩ :: ·)
      | none => searchFor needle filter (max + 1) log
    else searchFor needle filter (max + 1) log

/-- Entries whose text contains `needle`, oldest first, at most `max`. -/
def search (log : List AgentLogEntry) (needle : String) (filter : LogFilter) (max : ℕ) :
    Option (List LogSearchHit) :=
  searchFor U json (U.toLowercase needle.toList) filter max log

/-! ## What a search is for -/

def Reads (query text : List Char) : Prop :=
  ∃ part, part <:+: text ∧ U.toLowercase part = U.toLowercase query

theorem reads_iff {query text : List Char} : Reads U query text ↔
    ∃ tail ∈ text.tails, ∃ part ∈ tail.inits, U.toLowercase part = U.toLowercase query := by
  constructor
  · rintro ⟨part, hpart, hlower⟩
    obtain ⟨tail, htail, hpart⟩ := List.infix_iff_prefix_suffix.mp hpart
    exact ⟨_, (List.mem_tails _ _).mpr hpart, part, (List.mem_inits _ _).mpr htail, hlower⟩
  · rintro ⟨tail, htail, part, hpart, hlower⟩
    exact ⟨part, List.infix_iff_prefix_suffix.mpr
      ⟨tail, (List.mem_inits _ _).mp hpart, (List.mem_tails _ _).mp htail⟩, hlower⟩

instance (query text : List Char) : Decidable (Reads U query text) :=
  decidable_of_iff _ (reads_iff U).symm

/-- A part of the text that reads like the query stands in what is shown of it. -/
def Shows (query text shown : List Char) : Prop :=
  ∃ part, part <:+: text ∧ part <:+: shown ∧ U.toLowercase part = U.toLowercase query

structure HitOf (query : String) (e : AgentLogEntry) (hit : LogSearchHit) : Prop where
  seq : hit.seq = e.seq
  atMs : hit.atMs = e.atMs
  kind : hit.kind = kindOf e
  shows : Shows U query.toList (entryText json e).toList hit.snippet.toList

def sought (query : String) (filter : LogFilter) (e : AgentLogEntry) : Bool :=
  filter.keeps e && decide (Reads U query.toList (entryText json e).toList)

/-- A search gives the entries that contain the query, each with its match, and does not panic. -/
def SearchExact (log : List AgentLogEntry) (query : String) (filter : LogFilter) : Prop :=
  ∀ max, ∃ hits, search U json log query filter max = some hits ∧
    List.Forall₂ (HitOf U json query) ((log.filter (sought U json query filter)).take max) hits

/-- The lower case of the text is as good as the text to look for the query in: it has the query
where the text has it, after as many bytes, give or take what a snippet shows besides. -/
structure Findable (query text : List Char) : Prop where
  reads : U.toLowercase query <:+: U.toLowercase text ↔ Reads U query text
  placed : ∀ before, FirstAt (U.toLowercase query) (U.toLowercase text) before →
    ∃ start, start <+: text ∧ bytes start = bytes before ∧
      Shows U query text (around text start.length)

section

variable {U json}
variable {log : List AgentLogEntry} {e : AgentLogEntry} {needle query text : List Char}
  {filter : LogFilter} {max offset : ℕ} {hits : List LogSearchHit}

/-! ## The hits of a search -/

def hitFor (U : Casing) (json : AgentLogBody → String) (needle : List Char) (e : AgentLogEntry) :
    Option LogSearchHit :=
  (foundAt U json needle e).bind fun offset =>
    (snippet (entryText json e) offset).map fun s => ⟨e.seq, e.atMs, kindOf e, s⟩

/-- The filter keeps the entry, and the lower case of its text has what is looked for. -/
def found (U : Casing) (json : AgentLogBody → String) (needle : List Char) (filter : LogFilter)
    (e : AgentLogEntry) : Bool :=
  filter.keeps e && (foundAt U json needle e).isSome

theorem searchFor_eq_some : searchFor U json needle filter max log = some hits ↔
    List.Forall₂ (fun e hit => hitFor U json needle e = some hit)
      ((log.filter (found U json needle filter)).take max) hits := by
  induction log generalizing max hits with
  | nil =>
    have hnil : searchFor U json needle filter max [] = some [] := by cases max <;> rfl
    rw [hnil, List.filter_nil, List.take_nil, List.forall₂_nil_left_iff, Option.some_inj]
    exact eq_comm
  | cons e log ih =>
    cases max with
    | zero =>
      rw [searchFor, List.take_zero, List.forall₂_nil_left_iff, Option.some_inj]
      exact eq_comm
    | succ max =>
      rw [searchFor]
      by_cases hk : filter.keeps e = true
      · rw [if_pos hk]
        cases hf : foundAt U json needle e with
        | none =>
          rw [List.filter_cons_of_neg (by simp [found, hf])]
          exact ih
        | some offset =>
          rw [List.filter_cons_of_pos (by simp [found, hf, hk]), List.take_succ_cons,
            List.forall₂_cons_left_iff]
          have hhit : hitFor U json needle e =
              (snippet (entryText json e) offset).map fun s => ⟨e.seq, e.atMs, kindOf e, s⟩ := by
            unfold hitFor
            rw [hf]
            rfl
          simp only [hhit, Option.bind_eq_some_iff, Option.map_eq_some_iff, ih]
          constructor
          · rintro ⟨s, hs, hits', hrest, rfl⟩
            exact ⟨_, hits', ⟨s, hs, rfl⟩, hrest, rfl⟩
          · rintro ⟨hit, hits', ⟨s, hs, rfl⟩, hrest, rfl⟩
            exact ⟨s, hs, hits', hrest, rfl⟩
      · rw [if_neg hk, List.filter_cons_of_neg (by simp [found, hk])]
        exact ih

theorem hitFor_eq_some {hit : LogSearchHit} : hitFor U json needle e = some hit ↔
    ∃ before start, FirstAt needle (U.toLowercase (entryText json e).toList) before ∧
      start <+: (entryText json e).toList ∧ bytes start = bytes before ∧
      hit = ⟨e.seq, e.atMs, kindOf e,
        String.ofList (around (entryText json e).toList start.length)⟩ := by
  unfold hitFor foundAt snippet
  simp only [Option.bind_eq_some_iff, Option.map_eq_some_iff]
  constructor
  · rintro ⟨offset, hfind, s, ⟨place, hplace, rfl⟩, rfl⟩
    obtain ⟨before, hbefore, rfl⟩ := Lib.find_eq_some hfind
    obtain ⟨start, rest, htext, hbytes, rfl⟩ := Lib.charsBefore_eq_some hplace
    exact ⟨before, start, hbefore, ⟨rest, htext.symm⟩, hbytes, rfl⟩
  · rintro ⟨before, start, hbefore, ⟨rest, hrest⟩, hbytes, rfl⟩
    refine ⟨bytes before, hbefore.find_eq, _, ⟨start.length, ?_, rfl⟩, rfl⟩
    rw [← hrest, ← hbytes]
    exact Lib.charsBefore_bytes start rest

/-! ## One entry for each number -/

theorem eq_of_seq_eq (h : log.Pairwise (·.seq < ·.seq)) {e' : AgentLogEntry} (he : e ∈ log)
    (he' : e' ∈ log) (hseq : e.seq = e'.seq) : e = e' := by
  have hnodup : (log.map (·.seq)).Nodup := List.pairwise_map.mpr (h.imp Nat.ne_of_lt)
  exact List.inj_on_of_nodup_map hnodup he he' hseq

theorem filter_eq_of_seqs (h : log.Pairwise (·.seq < ·.seq)) {p q : AgentLogEntry → Bool}
    (hseq : (log.filter p).map (·.seq) = (log.filter q).map (·.seq)) :
    ∀ e ∈ log, p e = true → q e = true := by
  intro e he hp
  have hmem : e.seq ∈ (log.filter p).map (·.seq) :=
    List.mem_map_of_mem (List.mem_filter.mpr ⟨he, hp⟩)
  rw [hseq] at hmem
  obtain ⟨e', he', heq⟩ := List.mem_map.mp hmem
  obtain ⟨he', hq⟩ := List.mem_filter.mp he'
  rwa [← eq_of_seq_eq h he' he heq]

variable {R S : AgentLogEntry → LogSearchHit → Prop}

theorem map_seq_of_forall₂ (hR : ∀ e hit, R e hit → hit.seq = e.seq)
    (h : List.Forall₂ R log hits) : hits.map (·.seq) = log.map (·.seq) := by
  induction h with
  | nil => rfl
  | cons hr _ ih => rw [List.map_cons, List.map_cons, hR _ _ hr, ih]

theorem exists_of_forall₂ (hR : List.Forall₂ R log hits) (hS : List.Forall₂ S log hits) :
    ∀ e ∈ log, ∃ hit, R e hit ∧ S e hit := by
  induction hR with
  | nil =>
    intro e he
    cases he
  | cons hr _ ih =>
    cases hS with
    | cons hs hS =>
      intro e he
      rcases List.mem_cons.mp he with rfl | he
      · exact ⟨_, hr, hs⟩
      · exact ih hS e he

theorem exists_forall₂ (h : ∀ e ∈ log, ∃ hit, R e hit ∧ S e hit) :
    ∃ hits, List.Forall₂ R log hits ∧ List.Forall₂ S log hits := by
  induction log with
  | nil => exact ⟨[], .nil, .nil⟩
  | cons e log ih =>
    obtain ⟨hit, hr, hs⟩ := h e List.mem_cons_self
    obtain ⟨hits, hR, hS⟩ := ih fun e he => h e (List.mem_cons_of_mem _ he)
    exact ⟨hit :: hits, .cons hr hR, .cons hs hS⟩

/-! ## When a search is exact -/

theorem foundAt_isSome : (foundAt U json needle e).isSome = true ↔
    needle <:+: U.toLowercase (entryText json e).toList := Lib.find_isSome

theorem filter_found_eq {query : String} (h : ∀ e ∈ log, filter.keeps e = true →
      ((foundAt U json (U.toLowercase query.toList) e).isSome = true ↔
        Reads U query.toList (entryText json e).toList)) :
    log.filter (found U json (U.toLowercase query.toList) filter) =
      log.filter (sought U json query filter) := by
  refine List.filter_congr fun e he => ?_
  unfold found sought
  by_cases hk : filter.keeps e = true
  · rw [hk, Bool.true_and, Bool.true_and, Bool.eq_iff_iff, decide_eq_true_iff]
    exact h e he hk
  · rw [eq_false_of_ne_true hk, Bool.false_and, Bool.false_and]

/-- What is found has a place, and a good lower case a snippet that shows it. -/
theorem Findable.exists_hit {query : String}
    (h : Findable U query.toList (entryText json e).toList)
    (hfound : (foundAt U json (U.toLowercase query.toList) e).isSome = true) :
    ∃ hit, hitFor U json (U.toLowercase query.toList) e = some hit ∧
      HitOf U json query e hit := by
  obtain ⟨offset, ho⟩ := Option.isSome_iff_exists.mp hfound
  obtain ⟨before, hbefore, -⟩ := Lib.find_eq_some ho
  obtain ⟨start, hstart, hbytes, hshows⟩ := h.placed before hbefore
  refine ⟨_, hitFor_eq_some.mpr ⟨before, start, hbefore, hstart, hbytes, rfl⟩, rfl, rfl, rfl, ?_⟩
  rw [String.toList_ofList]
  exact hshows

theorem SearchExact.found_iff {query : String} (hexact : SearchExact U json log query filter)
    (h : log.Pairwise (·.seq < ·.seq)) (he : e ∈ log) (hk : filter.keeps e = true) :
    (foundAt U json (U.toLowercase query.toList) e).isSome = true ↔
      Reads U query.toList (entryText json e).toList := by
  obtain ⟨hits, hsearch, hof⟩ := hexact log.length
  have hfor := searchFor_eq_some.mp hsearch
  rw [List.take_of_length_le (List.length_filter_le _ _)] at hof hfor
  have hseq := map_seq_of_forall₂ (fun e hit hhit => hhit.seq) hof
  have hseq' := map_seq_of_forall₂ (fun e hit hhit => by
    obtain ⟨before, start, -, -, -, rfl⟩ := hitFor_eq_some.mp hhit
    rfl) hfor
  have hto := filter_eq_of_seqs h (hseq'.symm.trans hseq) e he
  have hback := filter_eq_of_seqs h (hseq.symm.trans hseq') e he
  unfold found sought at hto hback
  rw [hk, Bool.true_and, Bool.true_and, decide_eq_true_iff] at hto hback
  exact ⟨hto, hback⟩

theorem SearchExact.findable {query : String} (hexact : SearchExact U json log query filter)
    (h : log.Pairwise (·.seq < ·.seq)) (he : e ∈ log) (hk : filter.keeps e = true) :
    Findable U query.toList (entryText json e).toList := by
  refine ⟨foundAt_isSome.symm.trans (hexact.found_iff h he hk), fun before hbefore => ?_⟩
  have hfound : found U json (U.toLowercase query.toList) filter e = true := by
    unfold found foundAt
    rw [hk, hbefore.find_eq]
    rfl
  obtain ⟨hits, hsearch, hof⟩ := hexact log.length
  have hfor := searchFor_eq_some.mp hsearch
  rw [← filter_found_eq fun e he hk => hexact.found_iff h he hk] at hof
  rw [List.take_of_length_le (List.length_filter_le _ _)] at hof hfor
  obtain ⟨hit, hhit, hhitOf⟩ :=
    exists_of_forall₂ hfor hof e (List.mem_filter.mpr ⟨he, hfound⟩)
  obtain ⟨before', start, hbefore', hstart, hbytes, rfl⟩ := hitFor_eq_some.mp hhit
  refine ⟨start, hstart, ?_, ?_⟩
  · rw [hbytes]
    exact Option.some.inj (hbefore'.find_eq.symm.trans hbefore.find_eq)
  · have hshows := hhitOf.shows
    rw [String.toList_ofList] at hshows
    exact hshows

/-- A search is exact exactly when the lower case of every entry that may be shown is good to look
in. -/
theorem search_exact_iff (h : log.Pairwise (·.seq < ·.seq)) (query : String) :
    SearchExact U json log query filter ↔ ∀ e ∈ log, filter.keeps e = true →
      Findable U query.toList (entryText json e).toList := by
  constructor
  · intro hexact e he hk
    exact hexact.findable h he hk
  · intro hgood max
    rw [← filter_found_eq fun e he hk => foundAt_isSome.trans (hgood e he hk).reads]
    have hhits : ∀ e ∈ (log.filter (found U json (U.toLowercase query.toList) filter)).take max,
        ∃ hit, hitFor U json (U.toLowercase query.toList) e = some hit ∧
          HitOf U json query e hit := by
      intro e he
      obtain ⟨he, hfound⟩ := List.mem_filter.mp (List.mem_of_mem_take he)
      obtain ⟨hk, hfound⟩ := (Bool.and_eq_true _ _).mp hfound
      exact (hgood e he hk).exists_hit hfound
    obtain ⟨hits, hfor, hof⟩ := exists_forall₂ hhits
    exact ⟨hits, searchFor_eq_some.mpr hfor, hof⟩

/-! ## Plain text -/

theorem part_around {start part rest : List Char} (hpart : part.length ≤ snippetChars / 2) :
    part <:+: around (start ++ (part ++ rest)) start.length := by
  have hfirst : snippetStart start.length ≤ start.length := Nat.sub_le _ _
  have hlast : start.length + part.length ≤
      snippetEnd (start ++ (part ++ rest)) start.length := by
    unfold snippetEnd snippetStart
    rw [List.length_append, List.length_append]
    unfold snippetChars at hpart ⊢
    omega
  obtain ⟨n, hn⟩ := Nat.exists_eq_add_of_le hlast
  unfold around
  rw [hn, List.take_append, List.take_of_length_le (by omega : start.length ≤ _),
    show start.length + part.length + n - start.length = part.length + n by omega,
    List.take_length_add_append, List.drop_append_of_le_length hfirst]
  exact ((List.infix_append' _ _ _).trans (List.prefix_append _ _).isInfix).trans
    (List.suffix_append _ _).isInfix

theorem Findable.of_plain {f : Char → Char} (h : U.Plain f text)
    (hquery : (U.toLowercase query).length ≤ snippetChars / 2) : Findable U query text := by
  constructor
  · rw [h.toLowercase, List.infix_map_iff]
    constructor
    · rintro ⟨part, hpart, heq⟩
      exact ⟨part, hpart, (h.part hpart).toLowercase.trans heq.symm⟩
    · rintro ⟨part, hpart, heq⟩
      exact ⟨part, hpart, heq.symm.trans (h.part hpart).toLowercase⟩
  · intro before hbefore
    obtain ⟨rest', hrest⟩ := hbefore.occurs
    rw [h.toLowercase, List.append_assoc] at hrest
    obtain ⟨start, tail, rfl, rfl, htail⟩ := List.map_eq_append_iff.mp hrest.symm
    obtain ⟨part, rest, rfl, hpart, rfl⟩ := List.map_eq_append_iff.mp htail
    have hpart' : part <:+: start ++ (part ++ rest) := ⟨start, rest, List.append_assoc ..⟩
    refine ⟨start, List.prefix_append _ _,
      ((h.part (List.prefix_append _ _).isInfix).bytes_map).symm, part, hpart', ?_, ?_⟩
    · apply part_around
      rw [← hpart, List.length_map] at hquery
      exact hquery
    · exact (h.part hpart').toLowercase.trans hpart

end

/-! ## Two searches -/

/-- Letters as the examples need them. -/
def latin : Casing where
  lower c := if c = 'Ⱥ' then ['ⱥ'] else [c.toLower]
  cased c := c.isAlpha || decide (c ∈ ['Ⱥ', 'ⱥ', 'é'])
  caseIgnorable c := decide (c.toNat ∈ [0x27, 0x2E, 0x3A, 0x5E, 0x60])

def said (text : String) : AgentLogEntry := ⟨0, 0, .llm ⟨"m", .user, [.text text], 0, none⟩⟩

/-- A plain text is searched for a part of it. -/
theorem search_exact_greeting :
    SearchExact latin (fun _ => "") [said "Good Morning"] "MORN" .everything :=
  (search_exact_iff (List.pairwise_singleton _ _) "MORN").mpr fun e he _ => by
    obtain rfl := List.mem_singleton.mp he
    exact Findable.of_plain (f := Char.toLower) (by decide +kernel) (by decide +kernel)

/-- A letter whose lower case takes a byte more, before an accented one: the place of the second is
looked for inside it. -/
theorem search_accented : ¬ SearchExact latin (fun _ => "") [said "Ⱥé"] "é" .everything := by
  intro h
  obtain ⟨hits, hsearch, -⟩ := h 1
  have hnone : search latin (fun _ => "") [said "Ⱥé"] "é" .everything 1 = none := by
    decide +kernel
  rw [hnone] at hsearch
  cases hsearch

end Horsie.Agent
