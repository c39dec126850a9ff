import Horsie.EventLog.Store

/-!
# Delivery

What every statement leaves of the log's invariant, and the two promises of the log in every run
whose reads hand out ids in order and find an event that decodes where there is one. SQLite's reads
always hand out ids in order. On PostgreSQL two batches in flight may draw their ids in turn: the
older transaction commits an id above one of the younger, and a read that hands it out lets the
cursor pass what the younger commits.
-/

namespace Horsie.EventLog

open Horsie.Lib

variable {P E : Type*} {decode : P → Option E} {d : Dialect} {s s' : Log P} {a : Act P}

/-- Below an id a group was handed, the group was handed every event that decodes, and nothing can
still land. -/
structure Delivered (decode : P → Option E) (s : Log P) (group : Group) (cursor : ℕ) : Prop where
  below : ∀ row ∈ s.committed, row.stream = group.1 → (decode row.payload).isSome →
    row.id ≤ cursor → (group, row.id) ∈ s.handed
  above : ∀ tx ∈ s.running, ∀ row ∈ tx.rows, row.stream = group.1 →
    (decode row.payload).isSome → cursor < row.id

structure Inv (decode : P → Option E) (d : Dialect) (s : Log P) : Prop where
  ids : (s.rows.map (·.id)).Nodup
  drawn : ∀ row ∈ s.rows, 0 < row.id ∧ row.id < s.nextId
  handed : ∀ x ∈ s.handed, x.2 < s.nextId ∧ Delivered decode s x.1 x.2
  offsets : ∀ group cursor, s.offsets group = some cursor → (group, cursor) ∈ s.handed
  looked : ∀ x ∈ s.looked, x.2 = 0 ∨ x ∈ s.handed
  turns : d = .sqlite → s.running.length ≤ 1 ∧
    ∀ tx ∈ s.running, ∀ row ∈ tx.rows, ∀ row' ∈ s.committed, row'.id < row.id

variable {row : Row P}

theorem mem_rows :
    row ∈ s.rows ↔ row ∈ s.committed ∨ ∃ tx ∈ s.running, row ∈ tx.rows := by
  rw [Log.rows, List.mem_append, List.mem_flatMap]

variable {stream : String}

theorem mem_visible :
    row ∈ s.visible d stream ↔
      row ∈ s.committed ∧ row.stream = stream ∧ s.admits d row = true := by
  rw [Log.visible, List.mem_filter, Bool.and_eq_true, decide_eq_true_eq]

theorem mem_read {x : ℕ × E} {cursor limit : ℕ}
    (h : x ∈ s.read decode d stream cursor limit) :
    ∃ row ∈ s.page d stream cursor limit, row.id = x.1 ∧ (decode row.payload).isSome := by
  obtain ⟨row, hrow, hx⟩ := List.mem_filterMap.mp h
  obtain ⟨event, hevent, rfl⟩ := Option.map_eq_some_iff.mp hx
  exact ⟨row, hrow, rfl, by rw [hevent]; rfl⟩

theorem mem_read_of_page {cursor limit : ℕ}
    (h : row ∈ s.page d stream cursor limit) (hd : (decode row.payload).isSome) :
    ∃ event, (row.id, event) ∈ s.read decode d stream cursor limit := by
  obtain ⟨event, hevent⟩ := Option.isSome_iff_exists.mp hd
  exact ⟨event, List.mem_filterMap.mpr ⟨row, h, by rw [hevent]; rfl⟩⟩

/-! ## The statements -/

namespace Inv

/-- A statement that neither hands out nor acks: what it leaves in the table was there or in
flight, what it leaves in flight was there or carries a new id. -/
theorem frame (h : Inv decode d s) (hids : (s'.rows.map (·.id)).Nodup)
    (hcommitted : ∀ row ∈ s'.committed, row ∈ s.rows)
    (hrunning : ∀ tx ∈ s'.running, ∀ row ∈ tx.rows,
      (∃ tx ∈ s.running, row ∈ tx.rows) ∨ row.id = s.nextId ∧ s.nextId < s'.nextId)
    (hnext : 0 < s.nextId ∧ s.nextId ≤ s'.nextId) (hhanded : s'.handed = s.handed)
    (hoffsets : s'.offsets = s.offsets) (hlooked : ∀ x ∈ s'.looked, x ∈ s.looked)
    (hturns : d = .sqlite → s'.running.length ≤ 1 ∧
      ∀ tx ∈ s'.running, ∀ row ∈ tx.rows, ∀ row' ∈ s'.committed, row'.id < row.id) :
    Inv decode d s' where
  ids := hids
  drawn := by
    intro row hrow
    have hold : row ∈ s.rows ∨ row.id = s.nextId ∧ s.nextId < s'.nextId := by
      rcases mem_rows.mp hrow with hrow | ⟨tx, htx, hrow⟩
      · exact .inl (hcommitted row hrow)
      · exact (hrunning tx htx row hrow).imp_left fun hold => mem_rows.mpr (.inr hold)
    rcases hold with hold | ⟨hid, hlt⟩
    · exact ⟨(h.drawn row hold).1, (h.drawn row hold).2.trans_le hnext.2⟩
    · rw [hid]
      exact ⟨hnext.1, hlt⟩
  handed := by
    intro x hx
    rw [hhanded] at hx
    obtain ⟨hlt, hbelow, habove⟩ := h.handed x hx
    refine ⟨hlt.trans_le hnext.2, fun row hrow hstream hd hle => ?_,
      fun tx htx row hrow hstream hd => ?_⟩
    · rw [hhanded]
      rcases mem_rows.mp (hcommitted row hrow) with hrow | ⟨tx, htx, hrow⟩
      · exact hbelow row hrow hstream hd hle
      · exact absurd hle (Nat.not_le.mpr (habove tx htx row hrow hstream hd))
    · rcases hrunning tx htx row hrow with ⟨tx', htx', hrow'⟩ | ⟨hid, -⟩
      · exact habove tx' htx' row hrow' hstream hd
      · rw [hid]
        exact hlt
  offsets := by
    intro group cursor hc
    rw [hoffsets] at hc
    rw [hhanded]
    exact h.offsets group cursor hc
  looked := by
    intro x hx
    rw [hhanded]
    exact h.looked x (hlooked x hx)
  turns := hturns

theorem begin (h : Inv decode d s) (hn : 0 < s.nextId) (hs : d = .sqlite → s.running = []) :
    Inv decode d { s with running := s.running ++ [⟨none, []⟩] } := by
  have hmem : ∀ tx ∈ s.running ++ [⟨none, []⟩], ∀ row ∈ tx.rows, tx ∈ s.running := by
    intro tx htx row hrow
    rcases List.mem_append.mp htx with htx | htx
    · exact htx
    · rw [List.mem_singleton.mp htx] at hrow
      cases hrow
  refine h.frame ?_ (fun row hrow => mem_rows.mpr (.inl hrow))
    (fun tx htx row hrow => .inl ⟨tx, hmem tx htx row hrow, hrow⟩) ⟨hn, le_rfl⟩ rfl rfl
    (fun x hx => hx) fun hd => ?_
  · simpa only [Log.rows, List.flatMap_append, List.flatMap_singleton, List.append_nil] using h.ids
  · rw [hs hd]
    refine ⟨le_rfl, fun tx htx row hrow => ?_⟩
    rw [List.mem_singleton.mp htx] at hrow
    cases hrow

/-- A transaction is replaced by one with the same rows, or with one more under the next id. -/
theorem replace (h : Inv decode d s) {pre post : List (Tx P)} {tx tx' : Tx P} {nextId nextXid : ℕ}
    (hr : s.running = pre ++ tx :: post) (hn : 0 < s.nextId) (hnext : s.nextId ≤ nextId)
    (htx : tx'.rows = tx.rows ∨
      ∃ row, row.id = s.nextId ∧ s.nextId < nextId ∧ tx'.rows = tx.rows ++ [row]) :
    Inv decode d { s with running := pre ++ tx' :: post, nextId, nextXid } := by
  have htx_mem : tx ∈ s.running := by
    rw [hr]
    exact List.mem_append_right _ List.mem_cons_self
  have hmem : ∀ t ∈ pre ++ tx' :: post, ∀ row ∈ t.rows,
      (∃ t ∈ s.running, row ∈ t.rows) ∨ row.id = s.nextId ∧ s.nextId < nextId := by
    intro t ht row hrow
    rcases List.mem_append.mp ht with ht | ht
    · exact .inl ⟨t, by rw [hr]; exact List.mem_append_left _ ht, hrow⟩
    rcases List.mem_cons.mp ht with rfl | ht
    · rcases htx with heq | ⟨new, hid, hlt, heq⟩
      · exact .inl ⟨tx, htx_mem, heq ▸ hrow⟩
      · rw [heq] at hrow
        rcases List.mem_append.mp hrow with hrow | hrow
        · exact .inl ⟨tx, htx_mem, hrow⟩
        · rw [List.mem_singleton.mp hrow]
          exact .inr ⟨hid, hlt⟩
    · exact .inl ⟨t, by rw [hr]; exact List.mem_append_right _ (List.mem_cons_of_mem _ ht), hrow⟩
  refine h.frame ?_ (fun row hrow => mem_rows.mpr (.inl hrow)) hmem ⟨hn, hnext⟩ rfl rfl
    (fun x hx => hx) fun hd => ?_
  · have hids := h.ids
    rw [Log.rows, hr] at hids
    rcases htx with heq | ⟨new, hid, -, heq⟩
    · simpa only [Log.rows, List.flatMap_append, List.flatMap_cons, heq] using hids
    · have hperm : (s.committed ++ (pre ++ tx' :: post).flatMap (·.rows)).Perm
          (new :: (s.committed ++ (pre ++ tx :: post).flatMap (·.rows))) := by
        simp only [List.flatMap_append, List.flatMap_cons, heq, List.append_assoc,
          List.singleton_append]
        simp only [← List.append_assoc]
        exact List.perm_middle
      have hnew : new.id ∉ (s.committed ++ (pre ++ tx :: post).flatMap (·.rows)).map (·.id) := by
        intro hin
        obtain ⟨row, hrow, hrid⟩ := List.mem_map.mp hin
        have hlt := (h.drawn row (by rw [Log.rows, hr]; exact hrow)).2
        omega
      exact (hperm.map _).nodup_iff.mpr (List.nodup_cons.mpr ⟨hnew, hids⟩)
  · obtain ⟨hlen, hlast⟩ := h.turns hd
    refine ⟨?_, fun t ht row hrow row' hrow' => ?_⟩
    · rw [hr] at hlen
      simpa using hlen
    · rcases hmem t ht row hrow with ⟨t', ht', hrow''⟩ | ⟨hid, -⟩
      · exact hlast t' ht' row hrow'' row' hrow'
      · rw [hid]
        exact (h.drawn row' (mem_rows.mpr (.inl hrow'))).2

theorem finish (h : Inv decode d s) {pre post : List (Tx P)} {tx : Tx P}
    (hr : s.running = pre ++ tx :: post) (hn : 0 < s.nextId) {landed : List (Row P)}
    (hl : landed = tx.rows ∨ landed = []) :
    Inv decode d { s with committed := s.committed ++ landed, running := pre ++ post } := by
  have hsub : ∀ t ∈ pre ++ post, t ∈ s.running := by
    intro t ht
    rw [hr]
    rcases List.mem_append.mp ht with ht | ht
    · exact List.mem_append_left _ ht
    · exact List.mem_append_right _ (List.mem_cons_of_mem _ ht)
  have hland : ∀ row ∈ landed, row ∈ tx.rows := by
    intro row hrow
    rcases hl with rfl | rfl
    · exact hrow
    · cases hrow
  refine h.frame ?_ (fun row hrow => ?_) (fun t ht row hrow => .inl ⟨t, hsub t ht, hrow⟩)
    ⟨hn, le_rfl⟩ rfl rfl (fun x hx => hx) fun hd => ?_
  · have hids := h.ids
    rw [Log.rows, hr] at hids
    have hsublist : (s.committed ++ landed ++ (pre ++ post).flatMap (·.rows)).Subperm
        (s.committed ++ (pre ++ tx :: post).flatMap (·.rows)) := by
      simp only [List.flatMap_append, List.flatMap_cons, List.append_assoc]
      refine (List.subperm_append_left _).mpr ?_
      have hcomm : (landed ++ (pre.flatMap (·.rows) ++ post.flatMap (·.rows))).Perm
          (pre.flatMap (·.rows) ++ (landed ++ post.flatMap (·.rows))) := by
        simp only [← List.append_assoc]
        exact List.perm_append_comm.append_right _
      refine hcomm.subperm.trans ((List.subperm_append_left _).mpr ?_)
      rcases hl with rfl | rfl
      · exact .refl _
      · exact (List.sublist_append_right _ _).subperm
    obtain ⟨l, hperm, hsub⟩ := hsublist
    exact (hperm.map _).nodup_iff.mp ((hsub.map _).nodup hids)
  · rcases List.mem_append.mp hrow with hrow | hrow
    · exact mem_rows.mpr (.inl hrow)
    · exact mem_rows.mpr (.inr ⟨tx, by rw [hr]; exact List.mem_append_right _ List.mem_cons_self,
        hland row hrow⟩)
  · obtain ⟨hlen, -⟩ := h.turns hd
    rw [hr, List.length_append, List.length_cons] at hlen
    have hnone : pre ++ post = [] := List.length_eq_zero_iff.mp (by rw [List.length_append]; omega)
    rw [hnone]
    exact ⟨Nat.zero_le _, fun t ht => absurd ht List.not_mem_nil⟩

theorem trim (h : Inv decode d s) (hn : 0 < s.nextId) (stream : String) (groups : List String) :
    Inv decode d { s with committed := s.trim stream groups } := by
  have hsub : (s.trim stream groups).Sublist s.committed := by
    unfold Log.trim
    split
    · exact List.Sublist.refl _
    · exact List.filter_sublist
  refine h.frame ((List.Sublist.map _ (hsub.append_right _)).nodup h.ids)
    (fun row hrow => mem_rows.mpr (.inl (hsub.subset hrow)))
    (fun t ht row hrow => .inl ⟨t, ht, hrow⟩) ⟨hn, le_rfl⟩ rfl rfl (fun x hx => hx) fun hd => ?_
  obtain ⟨hlen, hlast⟩ := h.turns hd
  exact ⟨hlen, fun t ht row hrow row' hrow' => hlast t ht row hrow row' (hsub.subset hrow')⟩

theorem look (h : Inv decode d s) (group : Group) :
    Inv decode d { s with looked := s.looked ++ [(group, (s.offsets group).getD 0)] } := by
  refine ⟨h.ids, h.drawn, fun x hx => (h.handed x hx).imp_right fun hd => ⟨hd.below, hd.above⟩,
    h.offsets, fun x hx => ?_, h.turns⟩
  rcases List.mem_append.mp hx with hx | hx
  · exact h.looked x hx
  · rw [List.mem_singleton.mp hx]
    cases hc : s.offsets group with
    | none => exact .inl rfl
    | some cursor => exact .inr (h.offsets group cursor hc)

theorem ack (h : Inv decode d s) {group : Group} {upTo : ℕ} (hu : (group, upTo) ∈ s.handed) :
    Inv decode d { s with offsets := s.ack group upTo } := by
  refine ⟨h.ids, h.drawn, fun x hx => (h.handed x hx).imp_right fun hd => ⟨hd.below, hd.above⟩,
    fun g cursor hc => ?_, h.looked, h.turns⟩
  by_cases hg : g = group
  · subst hg
    replace hc : some ((s.offsets g).elim upTo (max · upTo)) = some cursor := by
      simpa only [Log.ack, Function.update_self] using hc
    cases hc
    cases ho : s.offsets g with
    | none => exact hu
    | some old =>
      show (g, max old upTo) ∈ s.handed
      rcases Nat.le_total old upTo with hle | hle
      · rw [max_eq_right hle]
        exact hu
      · rw [max_eq_left hle]
        exact h.offsets g old ho
  · replace hc : s.offsets g = some cursor := by
      simpa only [Log.ack, Function.update_of_ne hg] using hc
    exact h.offsets g cursor hc

theorem inOrder_sqlite (h : Inv decode .sqlite s) (a : Act P) : a.InOrder decode .sqlite s := by
  intro group cursor limit _ x hx row hrow hstream _ _ hhidden
  obtain ⟨found, hfound, hid, -⟩ := mem_read hx
  have hcommitted := (mem_visible.mp (mem_of_mem_page hfound).1).1
  rcases mem_rows.mp hrow with hrow | ⟨tx, htx, hrow⟩
  · exact absurd (mem_visible.mpr ⟨hrow, hstream, rfl⟩) hhidden
  · rw [← hid]
    exact (h.turns rfl).2 tx htx row hrow found hcommitted

theorem read (h : Inv decode d s) {group : Group} {cursor : ℕ} (limit : ℕ)
    (hc : (group, cursor) ∈ s.looked) (hg : Act.InOrder decode d s (.read group cursor limit)) :
    Inv decode d { s with
      handed := s.handed ++ (s.read decode d group.1 cursor limit).map fun x => (group, x.1) } := by
  have hcommitted : ∀ row row', row ∈ s.committed → row' ∈ s.committed → row.id = row'.id →
      row = row' := fun row row' hrow hrow' hid =>
    List.inj_on_of_nodup_map h.ids (mem_rows.mpr (.inl hrow)) (mem_rows.mpr (.inl hrow')) hid
  have hkept : ∀ x ∈ s.handed, x ∈ s.handed ++
      (s.read decode d group.1 cursor limit).map fun x => (group, x.1) :=
    fun x hx => List.mem_append_left _ hx
  refine ⟨h.ids, h.drawn, fun x hx => ?_, fun g c hgc => hkept _ (h.offsets g c hgc),
    fun x hx => (h.looked x hx).imp_right (hkept x), h.turns⟩
  rcases List.mem_append.mp hx with hx | hx
  · obtain ⟨hlt, hbelow, habove⟩ := h.handed x hx
    exact ⟨hlt, fun row hrow hs hd hle => hkept _ (hbelow row hrow hs hd hle), habove⟩
  obtain ⟨y, hy, rfl⟩ := List.mem_map.mp hx
  obtain ⟨found, hfound, hid, -⟩ := mem_read hy
  obtain ⟨hvis, hcur⟩ := mem_of_mem_page hfound
  have hin := (mem_visible.mp hvis).1
  have hdrawn := (h.drawn found (mem_rows.mpr (.inl hin))).2
  -- an event that decodes, past the reader's cursor and up to the id it was handed, is on the page
  have hold : ∀ row ∈ s.rows, row.stream = group.1 → (decode row.payload).isSome →
      row.id ≤ cursor → row ∈ s.committed ∧ (group, row.id) ∈ s.handed := by
    intro row hrow hs hd hle
    rcases h.looked _ hc with hzero | hhanded
    · have hpos := (h.drawn row hrow).1
      simp only at hzero
      omega
    · obtain ⟨-, hbelow, habove⟩ := h.handed _ hhanded
      rcases mem_rows.mp hrow with hrow | ⟨tx, htx, hrow⟩
      · exact ⟨hrow, hbelow row hrow hs hd hle⟩
      · exact absurd hle (Nat.not_le.mpr (habove tx htx row hrow hs hd))
  refine ⟨by rw [← hid]; exact hdrawn, fun row hrow hs hd hle => ?_,
    fun tx htx row hrow hs hd => ?_⟩
  · by_cases hpast : cursor < row.id
    · by_cases hrowvis : row ∈ s.visible d group.1
      · have hpage : row ∈ s.page d group.1 cursor limit := by
          by_contra hout
          have hge := le_of_notMem_page hrowvis hpast hout hfound
          have heq := hcommitted row found hrow hin (by omega)
          exact hout (heq ▸ hfound)
        obtain ⟨event, hevent⟩ := mem_read_of_page hpage hd
        exact List.mem_append_right _ (List.mem_map.mpr ⟨_, hevent, rfl⟩)
      · have hlt := hg group cursor limit rfl y hy row (mem_rows.mpr (.inl hrow)) hs hd hpast
          hrowvis
        simp only at hle
        omega
    · exact hkept _ (hold row (mem_rows.mpr (.inl hrow)) hs hd (Nat.not_lt.mp hpast)).2
  · have hrows : row ∈ s.rows := mem_rows.mpr (.inr ⟨tx, htx, hrow⟩)
    have hout : row ∉ s.committed := fun hrow' => by
      have hids := h.ids
      rw [Log.rows, List.map_append, List.nodup_append] at hids
      exact hids.2.2 row.id (List.mem_map_of_mem hrow') row.id
        (List.mem_map_of_mem (List.mem_flatMap.mpr ⟨tx, htx, hrow⟩)) rfl
    have hpast : cursor < row.id := by
      by_contra hle
      exact hout (hold row hrows hs hd (Nat.not_lt.mp hle)).1
    exact hg group cursor limit rfl y hy row hrows hs hd hpast
      fun hvis => hout (mem_visible.mp hvis).1

end Inv

/-- Every statement keeps the invariant, where a read hands out its ids in order. -/
theorem Inv.step (h : Inv decode d s) (hn : 0 < s.nextId) (hs : Step decode d s a s')
    (hg : a.InOrder decode d s) : Inv decode d s' ∧ 0 < s'.nextId := by
  cases hs with
  | begin hturn => exact ⟨h.begin hn hturn, hn⟩
  | @insert pre post tx stream eventId payload hr hwait =>
    refine ⟨h.replace hr hn (Nat.le_succ _) ?_, Nat.succ_pos _⟩
    unfold Log.insert
    simp only
    split_ifs
    · exact .inl rfl
    · exact .inr ⟨_, rfl, Nat.lt_succ_self _, rfl⟩
  | touch hr => exact ⟨h.replace hr hn le_rfl (.inl rfl), hn⟩
  | commit hr => exact ⟨h.finish hr hn (.inl rfl), hn⟩
  | abort hr =>
    have hfin := h.finish hr hn (.inr rfl)
    rw [List.append_nil] at hfin
    exact ⟨hfin, hn⟩
  | look group => exact ⟨h.look group, hn⟩
  | read limit hc => exact ⟨h.read limit hc hg, hn⟩
  | ack hu => exact ⟨h.ack hu, hn⟩
  | trim stream groups => exact ⟨h.trim hn stream groups, hn⟩

theorem Inv.empty : Inv decode d (.empty : Log P) where
  ids := List.nodup_nil
  drawn _ hrow := absurd hrow List.not_mem_nil
  handed _ hx := absurd hx List.not_mem_nil
  offsets _ _ h := absurd h.symm (Option.some_ne_none _)
  looked _ hx := absurd hx List.not_mem_nil
  turns _ := ⟨Nat.zero_le _, fun _ htx => absurd htx List.not_mem_nil⟩

theorem Inv.skipsNothing (h : Inv decode d s) : SkipsNothing decode s := by
  intro group cursor hc row hrow hstream hd hle
  exact (h.handed _ (h.offsets group cursor hc)).2.below row hrow hstream hd hle

/-- A read of a page with nothing on it that decodes: all of it was handed out before. -/
theorem Inv.emptyMeansDone (h : Inv decode d s) (hs : Step decode d s a s')
    (hg : a.PageDecodes decode d s) : a.EmptyMeansDone decode d s := by
  rintro group cursor limit rfl hempty row hrow hd
  have hle : row.id ≤ cursor := by
    by_contra hpast
    exact hg group cursor limit rfl ⟨row, hrow, Nat.not_le.mp hpast, hd⟩ hempty
  have hc : (group, cursor) ∈ s.looked := by
    cases hs with
    | read _ hc => exact hc
  obtain ⟨hin, hstream, -⟩ := mem_visible.mp hrow
  rcases h.looked _ hc with hzero | hhanded
  · have hpos := (h.drawn row (mem_rows.mpr (.inl hin))).1
    simp only at hzero
    omega
  · exact (h.handed _ hhanded).2.below row hin hstream hd hle

/-- The log delivers at least once and skips nothing, in every run whose reads hand out, on
PostgreSQL, no id above one the gate still hides, and find an event that decodes on a page above
which there is one. -/
theorem delivers_at_least_once {s t : Log P} {tr : List (Log P × Act P × Log P)}
    (hinit : (eventLog decode d).Init s) (h : (eventLog decode d).Exec s tr t)
    (hg : ∀ x ∈ tr, (d = .postgres → x.2.1.InOrder decode d x.1) ∧
      x.2.1.PageDecodes decode d x.1) :
    SkipsNothing decode t ∧ ∀ x ∈ tr, x.2.1.EmptyMeansDone decode d x.1 := by
  have hinv : ∀ {pre : List (Log P × Act P × Log P)} {u : Log P}, (eventLog decode d).Exec s pre u →
      (∀ x ∈ pre, x ∈ tr) → Inv decode d u ∧ 0 < u.nextId := by
    intro pre u hpre hmem
    refine hpre.guarded (I := fun s => Inv decode d s ∧ 0 < s.nextId)
      (G := fun s a => d = .postgres → Act.InOrder decode d s a)
      (fun s a s' _ hinv hg hs => hinv.1.step hinv.2 hs ?_) (.init hinit) ?_
      fun x hx => (hg x (hmem x hx)).1
    · cases d with
      | postgres => exact hg rfl
      | sqlite => exact hinv.1.inOrder_sqlite a
    · rw [show s = .empty from hinit]
      exact ⟨.empty, Nat.one_pos⟩
  refine ⟨(hinv h fun x hx => hx).1.skipsNothing, fun x hx => ?_⟩
  obtain ⟨pre, hpre, hmem, hs⟩ := h.before hx
  exact (hinv hpre hmem).1.emptyMeansDone hs (hg x hx).2

/-- One batch of two events, read and acked. -/
theorem delivers_at_least_once_batch : ∃ (t : Log ℕ) (tr : List (Log ℕ × Act ℕ × Log ℕ)),
    (eventLog some .postgres).Exec .empty tr t ∧ t.offsets ("p", "g") = some 2 ∧
      SkipsNothing some t ∧ ∀ x ∈ tr, x.2.1.EmptyMeansDone some .postgres x.1 := by
  let g : Group := ("p", "g")
  let one : Row ℕ := ⟨1, "p", "a", 10, 1⟩
  let two : Row ℕ := ⟨2, "p", "b", 20, 1⟩
  let s₀ : Log ℕ := .empty
  let s₁ : Log ℕ := ⟨[], [⟨none, []⟩], 1, 1, s₀.offsets, [], []⟩
  let s₂ : Log ℕ := ⟨[], [⟨some 1, [one]⟩], 2, 2, s₀.offsets, [], []⟩
  let s₃ : Log ℕ := ⟨[], [⟨some 1, [one, two]⟩], 3, 2, s₀.offsets, [], []⟩
  let s₄ : Log ℕ := ⟨[one, two], [], 3, 2, s₀.offsets, [], []⟩
  let s₅ : Log ℕ := ⟨[one, two], [], 3, 2, s₀.offsets, [(g, 0)], []⟩
  let s₆ : Log ℕ := ⟨[one, two], [], 3, 2, s₀.offsets, [(g, 0)], [(g, 1), (g, 2)]⟩
  have hread : s₅.read some .postgres "p" 0 10 = [(1, 10), (2, 20)] := by
    have hvis : s₅.visible .postgres "p" = [one, two] := by decide +kernel
    rw [Log.read, Log.page, hvis, page, above_of_sorted (by simp [one, two])]
    rfl
  have h₁ : Step some .postgres s₀ .begin s₁ := .begin (fun h => by cases h)
  have h₂ : Step some .postgres s₁ (.insert "p" "a" 10) s₂ :=
    .insert (show s₁.running = [] ++ ⟨none, []⟩ :: [] from rfl) (List.forall_mem_nil _)
  have h₃ : Step some .postgres s₂ (.insert "p" "b" 20) s₃ :=
    .insert (show s₂.running = [] ++ ⟨some 1, [one]⟩ :: [] from rfl) (List.forall_mem_nil _)
  have h₄ : Step some .postgres s₃ .commit s₄ :=
    .commit (show s₃.running = [] ++ ⟨some 1, [one, two]⟩ :: [] from rfl)
  have h₅ : Step some .postgres s₄ (.look g) s₅ := .look g
  have h₆ : Step some .postgres s₅ (.read g 0 10) s₆ := by
    have h : Step some .postgres s₅ (.read g 0 10) _ := .read 10 (List.mem_singleton_self _)
    rw [show g.1 = "p" from rfl, hread] at h
    exact h
  have h₇ : Step some .postgres s₆ (.ack g 2) { s₆ with offsets := s₆.ack g 2 } :=
    .ack (List.mem_cons_of_mem _ (List.mem_singleton_self _))
  have hexec := ((((((System.Exec.nil (M := eventLog some .postgres)).snoc h₁).snoc h₂).snoc
    h₃).snoc h₄).snoc h₅).snoc h₆ |>.snoc h₇
  refine ⟨_, _, hexec, by simp [Log.ack, s₆, s₀, g, Log.empty],
    delivers_at_least_once rfl hexec ?_⟩
  simp only [List.forall_mem_append, List.forall_mem_singleton]
  refine ⟨⟨⟨⟨⟨⟨⟨List.forall_mem_nil _, ?_⟩, ?_⟩, ?_⟩, ?_⟩, ?_⟩, ?_⟩, ?_⟩
  case refine_6 =>
    have hvis : s₅.visible .postgres "p" = s₅.rows := by decide +kernel
    refine ⟨fun _ group cursor limit ha x hx row hrow _ _ _ hhidden => ?_,
      fun group cursor limit ha _ => ?_⟩
    all_goals obtain ⟨rfl, rfl, rfl⟩ : g = group ∧ 0 = cursor ∧ 10 = limit := by simpa using ha
    · exact absurd (hvis ▸ hrow) hhidden
    · rw [show g.1 = "p" from rfl, hread]
      exact List.cons_ne_nil _ _
  all_goals refine ⟨fun _ group cursor limit ha => ?_, fun group cursor limit ha => ?_⟩
  all_goals cases ha

/-- Two batches draw their ids in turn, and the older commits an id above one of the younger: the
group acks past an event it is not handed. And a page of one event that does not decode hides the
next. -/
theorem skips_and_stalls :
    (¬ ∀ (t : Log ℕ) (tr : List (Log ℕ × Act ℕ × Log ℕ)),
      (eventLog some .postgres).Exec .empty tr t → SkipsNothing some t) ∧
    ¬ ∀ (t : Log ℕ) (tr : List (Log ℕ × Act ℕ × Log ℕ)),
      (eventLog (fun n => if n = 0 then none else some n) .sqlite).Exec .empty tr t →
        ∀ x ∈ tr, x.2.1.EmptyMeansDone (fun n => if n = 0 then none else some n) .sqlite x.1 := by
  let g : Group := ("p", "g")
  let none₀ : Group → Option ℕ := fun _ => none
  constructor
  · intro hall
    let one : Row ℕ := ⟨1, "p", "a", 10, 1⟩
    let two : Row ℕ := ⟨2, "p", "b", 20, 2⟩
    let three : Row ℕ := ⟨3, "p", "c", 11, 1⟩
    let s₁ : Log ℕ := ⟨[], [⟨none, []⟩], 1, 1, none₀, [], []⟩
    let s₂ : Log ℕ := ⟨[], [⟨some 1, [one]⟩], 2, 2, none₀, [], []⟩
    let s₃ : Log ℕ := ⟨[], [⟨some 1, [one]⟩, ⟨none, []⟩], 2, 2, none₀, [], []⟩
    let s₄ : Log ℕ := ⟨[], [⟨some 1, [one]⟩, ⟨some 2, [two]⟩], 3, 3, none₀, [], []⟩
    let s₅ : Log ℕ := ⟨[], [⟨some 1, [one, three]⟩, ⟨some 2, [two]⟩], 4, 3, none₀, [], []⟩
    let s₆ : Log ℕ := ⟨[one, three], [⟨some 2, [two]⟩], 4, 3, none₀, [], []⟩
    let s₇ : Log ℕ := ⟨[one, three], [⟨some 2, [two]⟩], 4, 3, none₀, [(g, 0)], []⟩
    let s₈ : Log ℕ := ⟨[one, three], [⟨some 2, [two]⟩], 4, 3, none₀, [(g, 0)], [(g, 1), (g, 3)]⟩
    have hread : s₇.read some .postgres "p" 0 10 = [(1, 10), (3, 11)] := by
      have hvis : s₇.visible .postgres "p" = [one, three] := by decide +kernel
      rw [Log.read, Log.page, hvis, page, above_of_sorted (by simp [one, three])]
      rfl
    have h₁ : Step some .postgres .empty .begin s₁ := .begin (fun h => by cases h)
    have h₂ : Step some .postgres s₁ (.insert "p" "a" 10) s₂ :=
      .insert (show s₁.running = [] ++ ⟨none, []⟩ :: [] from rfl) (List.forall_mem_nil _)
    have h₃ : Step some .postgres s₂ .begin s₃ := .begin (fun h => by cases h)
    have h₄ : Step some .postgres s₃ (.insert "p" "b" 20) s₄ :=
      .insert (show s₃.running = [⟨some 1, [one]⟩] ++ ⟨none, []⟩ :: [] from rfl)
        (List.forall_mem_singleton.mpr (by decide +kernel))
    have h₅ : Step some .postgres s₄ (.insert "p" "c" 11) s₅ :=
      .insert (show s₄.running = [] ++ ⟨some 1, [one]⟩ :: [⟨some 2, [two]⟩] from rfl)
        (List.forall_mem_singleton.mpr (by decide +kernel))
    have h₆ : Step some .postgres s₅ .commit s₆ :=
      .commit (show s₅.running = [] ++ ⟨some 1, [one, three]⟩ :: [⟨some 2, [two]⟩] from rfl)
    have h₇ : Step some .postgres s₆ (.look g) s₇ := .look g
    have h₈ : Step some .postgres s₇ (.read g 0 10) s₈ := by
      have h : Step some .postgres s₇ (.read g 0 10) _ := .read 10 (List.mem_singleton_self _)
      rw [show g.1 = "p" from rfl, hread] at h
      exact h
    let s₉ : Log ℕ := { s₈ with offsets := s₈.ack g 3 }
    have h₉ : Step some .postgres s₈ (.ack g 3) s₉ :=
      .ack (List.mem_cons_of_mem _ (List.mem_singleton_self _))
    have h₁₀ : Step some .postgres s₉ .commit
        ⟨[one, three, two], [], 4, 3, s₈.ack g 3, [(g, 0)], [(g, 1), (g, 3)]⟩ :=
      .commit (show s₉.running = [] ++ ⟨some 2, [two]⟩ :: [] from rfl)
    have hexec := (((((((((System.Exec.nil (M := eventLog some .postgres)).snoc h₁).snoc h₂).snoc
      h₃).snoc h₄).snoc h₅).snoc h₆).snoc h₇).snoc h₈).snoc h₉ |>.snoc h₁₀
    have hskip := hall _ _ hexec g 3 (by simp [Log.ack, s₈, none₀]) two (by simp) rfl rfl
      (by decide)
    revert hskip
    decide +kernel
  · intro hall
    let one : Row ℕ := ⟨1, "p", "a", 0, 1⟩
    let two : Row ℕ := ⟨2, "p", "b", 20, 1⟩
    let s₁ : Log ℕ := ⟨[], [⟨none, []⟩], 1, 1, none₀, [], []⟩
    let s₂ : Log ℕ := ⟨[], [⟨some 1, [one]⟩], 2, 2, none₀, [], []⟩
    let s₃ : Log ℕ := ⟨[], [⟨some 1, [one, two]⟩], 3, 2, none₀, [], []⟩
    let s₄ : Log ℕ := ⟨[one, two], [], 3, 2, none₀, [], []⟩
    let s₅ : Log ℕ := ⟨[one, two], [], 3, 2, none₀, [(g, 0)], []⟩
    let decode : ℕ → Option ℕ := fun n => if n = 0 then none else some n
    have hread : s₅.read decode .sqlite "p" 0 1 = [] := by
      have hvis : s₅.visible .sqlite "p" = [one, two] := by decide +kernel
      rw [Log.read, Log.page, hvis, page, above_of_sorted (by simp [one, two])]
      rfl
    have h₁ : Step decode .sqlite .empty .begin s₁ := .begin fun _ => rfl
    have h₂ : Step decode .sqlite s₁ (.insert "p" "a" 0) s₂ :=
      .insert (show s₁.running = [] ++ ⟨none, []⟩ :: [] from rfl) (List.forall_mem_nil _)
    have h₃ : Step decode .sqlite s₂ (.insert "p" "b" 20) s₃ :=
      .insert (show s₂.running = [] ++ ⟨some 1, [one]⟩ :: [] from rfl) (List.forall_mem_nil _)
    have h₄ : Step decode .sqlite s₃ .commit s₄ :=
      .commit (show s₃.running = [] ++ ⟨some 1, [one, two]⟩ :: [] from rfl)
    have h₅ : Step decode .sqlite s₄ (.look g) s₅ := .look g
    have h₆ : Step decode .sqlite s₅ (.read g 0 1) _ := .read 1 (List.mem_singleton_self _)
    have hexec := (((((System.Exec.nil (M := eventLog decode .sqlite)).snoc h₁).snoc h₂).snoc
      h₃).snoc h₄).snoc h₅ |>.snoc h₆
    have hdone := hall _ _ hexec _ (List.mem_append_right _ (List.mem_singleton_self _)) g 0 1 rfl
      hread two (by decide +kernel) rfl
    cases hdone

end Horsie.EventLog
