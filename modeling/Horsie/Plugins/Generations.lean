import Horsie.Lib.Take
import Horsie.Plugins.Authored

/-!
# Generations of authored plugins

A generation names one package as long as the calls heed each other: the tables are written while
no resolve or fetch reads them, what is written for a generation packs like what was written for it
before, the library's row is read while it names the tables' generation, and a row is recorded from
an older reading only while a call with the newest one is still to record it.
-/

namespace Horsie.Plugins.Authored

open Horsie.Lib

/-! ## Readings -/

/-- What is packed for a generation is packed at that generation. -/
def Use.isFor : Use → ℕ → Bool
  | .republish, _ => true
  | .package generation, current | .resolve generation, current => generation = current

def Call.isFinished : Call → Bool
  | .finished _ => true
  | _ => false

def Call.isReading : Call → Bool
  | .packing u | .packingSkills u _ | .packingFiles u _ _ _ => u ≠ .republish
  | _ => false

section

variable (pack : Content → Except String PluginBundle)

def Call.isCurrent (t : Tables) : Call → Bool
  | .packing u => t.plugin.any fun head => u.isFor head.generation
  | .packingSkills u head => t.plugin = some head ∧ u.isFor head.generation
  | .packingFiles u head todo done =>
    t.plugin = some head ∧ u.isFor head.generation ∧ done ++ todo.map t.render = t.rendered
  | .persisting bundle generation | .publishing bundle generation _ =>
    t.content.any fun c => c.head.generation = generation ∧ pack c = .ok bundle
  | .purging => t.plugin.isNone
  | _ => false

def Call.mends (t : Tables) (c : Call) : Bool := c.isWriting && c.isCurrent pack t

/-- A call other than the `i`-th is still to record what the tables hold. -/
def World.mendedBeside (w : World) (t : Tables) (i : ℕ) : Bool :=
  (w.calls.eraseIdx i).any (·.mends pack t)

/-- The library's row is of the tables' generation, if it is of one. -/
def World.namesTables (w : World) : Bool :=
  w.published.all fun row =>
    match row.kind with
    | .authored generation => w.tables.plugin.any fun head => generation = head.generation
    | _ => true

/-- A plugin's tables pack like all that was committed at their generation. -/
def World.repeats (w : World) (t : Tables) : Bool :=
  w.past.all fun p => t.content.all fun c =>
    p.head.generation ≠ c.head.generation ∨ pack p = pack c

/-- The steps that the rest rests on. -/
def World.heeds (name : String) (w : World) : Label → Bool
  | .call _ => true
  | .act i o now =>
    match w.calls[i]? with
    | none => true
    | some c =>
      match writes name w.tables c with
      | some (.error _, _) => true
      | some (.ok t, _) =>
        !o.commits ||
          (w.calls.all (!·.isReading) && w.repeats pack t && (o = .ok || w.mendedBeside pack t i))
      | none =>
        match publishes now c with
        | some _ =>
          if o.commits then c.mends pack w.tables || w.mendedBeside pack w.tables i
          else !c.mends pack w.tables || w.isPublished pack || w.mendedBeside pack w.tables i
        | none =>
          (match c with
          | .resolve => o ≠ .ok || w.namesTables
          | .package generation =>
            o ≠ .ok || w.published.all (·.kind ≠ .authored generation) || w.namesTables
          | _ => true) &&
          -- a call that ends before it records what the tables hold
          (!c.mends pack w.tables ||
            !(o.next (read pack name w.tables w.published c)).isFinished ||
            w.isPublished pack || w.mendedBeside pack w.tables i)

/-! ## What is kept -/

def Call.Sound (past : List Content) (t : Tables) : Call → Prop
  | .finished (.ok (.resolved (.generation generation) digest)) =>
    ∃ c ∈ past, c.head.generation = generation ∧ ∃ b, pack c = .ok b ∧ b.hash = digest
  | .finished (.ok (.served generation bytes)) =>
    ∃ c ∈ past, c.head.generation = generation ∧ ∃ b, pack c = .ok b ∧ b.zipBytes = bytes
  | c => c.isReading = true → c.isCurrent pack t = true

structure World.Agrees (w : World) : Prop where
  current : ∀ c, w.tables.content = some c → c ∈ w.past
  past : ∀ c ∈ w.past, ∀ c' ∈ w.past, c.head.generation = c'.head.generation → pack c = pack c'
  calls : ∀ c ∈ w.calls, c.Sound pack w.past w.tables
  mended : w.isPublished pack = true ∨ ∃ c ∈ w.calls, c.mends pack w.tables = true

end

variable {pack : Content → Except String PluginBundle} {w w' : World} {t t' : Tables} {c c' : Call}
  {past : List Content} {i : ℕ} {o : Outcome} {name now : String} {u : Use} {head : PluginHead}

/-! ### Reading -/

theorem Call.sound_of_not_reading (hfin : c.isFinished = false) (hread : c.isReading = false) :
    c.Sound pack past t := by
  cases c with
  | finished answer => cases hfin
  | _ =>
    intro h
    rw [hread] at h
    cases h

theorem Call.sound_error (e : String) : (Call.finished (.error e)).Sound pack past t := by
  intro h
  cases h

theorem Call.Sound.next (h : c.Sound pack past t) : (o.next c).Sound pack past t := by
  cases o with
  | ok => exact h
  | error e => exact sound_error e
  | lost e => exact sound_error e

theorem packed_sound {done : List RenderedSkill}
    (h : u ≠ .republish → ⟨head, done⟩ ∈ past ∧ u.isFor head.generation = true) :
    (packed pack u head done).Sound pack past t := by
  unfold packed
  split
  · exact Call.sound_error _
  · rename_i bundle hbundle
    cases u with
    | republish => exact Call.sound_of_not_reading rfl rfl
    | package generation =>
      obtain ⟨hmem, hu⟩ := h (by intro hu; cases hu)
      exact ⟨⟨head, done⟩, hmem, (of_decide_eq_true hu).symm, bundle, hbundle, rfl⟩
    | resolve generation =>
      obtain ⟨hmem, hu⟩ := h (by intro hu; cases hu)
      exact ⟨⟨head, done⟩, hmem, (of_decide_eq_true hu).symm, bundle, hbundle, rfl⟩

theorem packed_mends {done : List RenderedSkill} (hc : t.content = some ⟨head, done⟩) :
    (packed pack .republish head done).isFinished = true ∨
      (packed pack .republish head done).mends pack t = true := by
  unfold packed
  split
  · exact .inl rfl
  · rename_i bundle hbundle
    refine .inr ?_
    show (true && t.content.any fun c => _) = true
    rw [hc]
    simp only [Bool.true_and, Option.any_some, decide_eq_true_eq]
    exact ⟨trivial, hbundle⟩

theorem Tables.content_of_plugin (h : t.plugin = some head) :
    t.content = some ⟨head, t.rendered⟩ := by
  rw [Tables.content, h, Option.map_some]

section

variable {todo : List Skill} {done : List RenderedSkill}

theorem readOn_sound (hcur : ∀ c, t.content = some c → c ∈ past)
    (h : u ≠ .republish → t.plugin = some head ∧ u.isFor head.generation = true ∧
      done ++ todo.map t.render = t.rendered) :
    (readOn pack u head todo done).Sound pack past t := by
  unfold readOn
  split_ifs with hempty
  · obtain rfl := List.isEmpty_iff.mp hempty
    refine packed_sound fun hu => ?_
    obtain ⟨hhead, hfor, hdone⟩ := h hu
    rw [List.map_nil, List.append_nil] at hdone
    subst hdone
    exact ⟨hcur _ (Tables.content_of_plugin hhead), hfor⟩
  · intro hread
    simp only [Call.isCurrent, decide_eq_true_eq]
    exact h (of_decide_eq_true hread)

theorem readOn_mends (hhead : t.plugin = some head)
    (hdone : done ++ todo.map t.render = t.rendered) :
    (readOn pack .republish head todo done).isFinished = true ∨
      (readOn pack .republish head todo done).mends pack t = true := by
  unfold readOn
  split_ifs with hempty
  · obtain rfl := List.isEmpty_iff.mp hempty
    rw [List.map_nil, List.append_nil] at hdone
    subst hdone
    exact packed_mends (Tables.content_of_plugin hhead)
  · refine .inr ?_
    show (true && decide _) = true
    rw [Bool.true_and, decide_eq_true_eq]
    exact ⟨hhead, rfl, hdone⟩

end

section

variable {published : Option PluginRow}

theorem saveFiles_sound (skill : Skill) (files : List AuthoredFile) :
    (saveFiles skill files).Sound pack past t := by
  unfold saveFiles
  split
  · exact Call.sound_error _
  · exact Call.sound_of_not_reading rfl rfl

theorem refuseIfExternal_sound (h : c.Sound pack past t) :
    (refuseIfExternal name published c).Sound pack past t := by
  unfold refuseIfExternal
  split_ifs
  · exact Call.sound_error _
  · exact h

theorem requirePlugin_sound {plugin : Option PluginHead} (h : c.Sound pack past t) :
    (requirePlugin name plugin c).Sound pack past t := by
  unfold requirePlugin
  split_ifs
  · exact h
  · exact Call.sound_error _

/-- A step that reads leads from what the tables hold to what they hold. -/
theorem read_sound (hc : c.Sound pack past t) (hcur : ∀ c, t.content = some c → c ∈ past)
    (hrow : ∀ row generation, published = some row → row.kind = .authored generation →
      c = .resolve ∨ c = .package generation →
        t.plugin.any (fun head => generation = head.generation) = true) :
    (read pack name t published c).Sound pack past t := by
  cases c with
  | writePlugin description =>
    simp only [read]
    split
    · exact Call.sound_error _
    · exact refuseIfExternal_sound (Call.sound_of_not_reading rfl rfl)
  | deletePlugin => exact refuseIfExternal_sound (Call.sound_of_not_reading rfl rfl)
  | deletePluginChecked => exact requirePlugin_sound (Call.sound_of_not_reading rfl rfl)
  | writeSkill input =>
    simp only [read]
    split
    · exact Call.sound_error _
    · exact refuseIfExternal_sound (Call.sound_of_not_reading rfl rfl)
  | writeSkillChecked input => exact requirePlugin_sound (Call.sound_of_not_reading rfl rfl)
  | writeSkillExisting input =>
    simp only [read]
    split
    · exact Call.sound_error _
    · split
      · exact saveFiles_sound _ _
      · exact Call.sound_of_not_reading rfl rfl
  | writeSkillFiles skill => exact saveFiles_sound _ _
  | deleteSkill skill => exact refuseIfExternal_sound (Call.sound_of_not_reading rfl rfl)
  | deleteSkillChecked skill => exact requirePlugin_sound (Call.sound_of_not_reading rfl rfl)
  | deleteSkillExisting skill =>
    simp only [read]
    split_ifs
    · exact Call.sound_of_not_reading rfl rfl
    · exact Call.sound_error _
  | packing u =>
    simp only [read]
    split
    · exact Call.sound_error _
    · rename_i head hhead
      intro hread
      have hany := hc hread
      simp only [Call.isCurrent, hhead, Option.any_some] at hany
      simp only [Call.isCurrent, decide_eq_true_eq]
      exact ⟨hhead, hany⟩
  | packingSkills u head =>
    refine readOn_sound hcur fun hu => ?_
    have hread := hc (decide_eq_true hu)
    simp only [Call.isCurrent, decide_eq_true_eq] at hread
    exact ⟨hread.1, hread.2, rfl⟩
  | packingFiles u head todo done =>
    have hread : u ≠ .republish → t.plugin = some head ∧ u.isFor head.generation = true ∧
        done ++ todo.map t.render = t.rendered := by
      intro hu
      have hread := hc (decide_eq_true hu)
      simp only [Call.isCurrent, decide_eq_true_eq] at hread
      exact hread
    cases todo with
    | nil =>
      refine packed_sound fun hu => ?_
      obtain ⟨hhead, hfor, hdone⟩ := hread hu
      rw [List.map_nil, List.append_nil] at hdone
      subst hdone
      exact ⟨hcur _ (Tables.content_of_plugin hhead), hfor⟩
    | cons skill rest =>
      refine readOn_sound hcur fun hu => ?_
      obtain ⟨hhead, hfor, hdone⟩ := hread hu
      refine ⟨hhead, hfor, ?_⟩
      rw [List.append_assoc]
      exact hdone
  | persisting bundle generation => exact Call.sound_of_not_reading rfl rfl
  | resolve =>
    simp only [read]
    split
    · exact Call.sound_error _
    · rename_i row
      split
      · rename_i generation hkind
        intro _
        exact hrow row generation rfl hkind (.inl rfl)
      · intro hread
        cases hread
  | package generation =>
    simp only [read]
    split
    · exact Call.sound_error _
    · rename_i row
      split
      · rename_i current hkind
        split_ifs with hne
        · exact Call.sound_error _
        · obtain rfl := not_not.mp hne
          intro _
          exact hrow row generation rfl hkind (.inr rfl)
      · exact Call.sound_error _
  | _ => exact hc

/-- A call that is still to record what the tables hold ends or goes on to do so. -/
theorem read_mends (hp : publishes now c = none)
    (hc : c.mends pack t = true) :
    (read pack name t published c).isFinished = true ∨
      (read pack name t published c).mends pack t = true := by
  obtain ⟨hwriting, hcurrent⟩ := Bool.and_eq_true_iff.mp hc
  cases c with
  | packing u =>
    obtain rfl := of_decide_eq_true hwriting
    simp only [read]
    split
    · exact .inl rfl
    · rename_i head hhead
      refine .inr ?_
      show (true && decide (t.plugin = some head ∧ _)) = true
      rw [Bool.true_and, decide_eq_true_eq]
      exact ⟨hhead, rfl⟩
  | packingSkills u head =>
    obtain rfl := of_decide_eq_true hwriting
    exact readOn_mends (of_decide_eq_true hcurrent).1 rfl
  | packingFiles u head todo done =>
    obtain rfl := of_decide_eq_true hwriting
    obtain ⟨hhead, -, hdone⟩ := of_decide_eq_true hcurrent
    cases todo with
    | nil =>
      rw [List.map_nil, List.append_nil] at hdone
      subst hdone
      exact packed_mends (Tables.content_of_plugin hhead)
    | cons skill rest =>
      refine readOn_mends hhead ?_
      rw [List.append_assoc]
      exact hdone
  | persisting bundle generation => exact .inr hc
  | publishing bundle generation existing => cases hp
  | purging => cases hp
  | _ => cases hcurrent

end

/-! ### Writing -/

theorem mem_set_of_beside {calls : List Call} {e : Call} (h : e ∈ calls.eraseIdx i) (c' : Call) :
    e ∈ calls.set i c' := by
  obtain ⟨j, hne, hj⟩ := List.mem_eraseIdx_iff_getElem?.mp h
  exact List.mem_of_getElem? ((List.getElem?_set_ne hne.symm).trans hj)

theorem mem_beside {calls : List Call} {e : Call} (hi : calls[i]? = some c) (he : e ∈ calls) :
    e = c ∨ e ∈ calls.eraseIdx i := by
  obtain ⟨j, hj⟩ := List.getElem?_of_mem he
  by_cases hne : j = i
  · subst hne
    exact .inl (Option.some.inj (hj.symm.trans hi))
  · exact .inr (List.mem_eraseIdx_iff_getElem?.mpr ⟨j, hne, hj⟩)

theorem World.mended_of_beside (h : w.mendedBeside pack t i = true) (c' : Call) :
    ∃ e ∈ w.calls.set i c', e.mends pack t = true := by
  obtain ⟨e, he, hmends⟩ := List.any_eq_true.mp h
  exact ⟨e, mem_set_of_beside he c', hmends⟩

/-- A step of one call that changes neither the tables nor the library's row. -/
theorem World.Agrees.of_call (h : w.Agrees pack) (hi : w.calls[i]? = some c)
    (hsound : c'.Sound pack w.past w.tables)
    (hmends : c.mends pack w.tables = true → c'.mends pack w.tables = true ∨
      w.isPublished pack = true ∨ w.mendedBeside pack w.tables i = true) :
    World.Agrees pack { w with calls := w.calls.set i c' } where
  current := h.current
  past := h.past
  calls e he := by
    rcases List.mem_or_eq_of_mem_set he with he | rfl
    · exact h.calls e he
    · exact hsound
  mended := by
    have hlt := (List.getElem?_eq_some_iff.mp hi).1
    rcases h.mended with hpub | ⟨e, he, hemends⟩
    · exact .inl hpub
    · rcases mem_beside hi he with rfl | he
      · rcases hmends hemends with hc' | hpub | hbeside
        · exact .inr ⟨c', List.mem_set hlt c', hc'⟩
        · exact .inl hpub
        · exact .inr (mended_of_beside hbeside c')
      · exact .inr ⟨e, mem_set_of_beside he c', hemends⟩

theorem publishes_isPublished {row : Option PluginRow} (hp : publishes now c = some row)
    (hc : c.mends pack t = true) (calls : List Call) :
    World.isPublished pack ⟨t, row, calls, past⟩ = true := by
  obtain ⟨-, hcurrent⟩ := Bool.and_eq_true_iff.mp hc
  cases c with
  | publishing bundle generation existing =>
    cases hp
    obtain ⟨content, hcontent, hof⟩ := (Option.any_eq_true _ _).mp hcurrent
    obtain ⟨hgeneration, hpack⟩ := of_decide_eq_true hof
    simp only [World.isPublished, hcontent, hpack, PluginBundle.row, hgeneration, true_and,
      decide_true]
  | purging =>
    cases hp
    have hnone : t.content = none := by
      rw [Tables.content, Option.isNone_iff_eq_none.mp hcurrent, Option.map_none]
    simp only [World.isPublished, hnone, Option.isNone_none]
  | _ => cases hp

theorem Tables.bumpGeneration_plugin (h : Tables.bumpGeneration t name = .ok t') :
    t'.plugin.isSome = true := by
  unfold Tables.bumpGeneration at h
  split at h
  · cases h
  · cases h
    rfl

theorem writes_mends (hw : writes name t c = some (.ok t', c')) :
    c'.isReading = false ∧ c'.isFinished = false ∧ c'.mends pack t' = true := by
  have hrepublish : t'.plugin.isSome = true →
      (Call.packing .republish).mends pack t' = true := by
    intro hsome
    obtain ⟨head, hhead⟩ := Option.isSome_iff_exists.mp hsome
    show (true && t'.plugin.any fun head => _) = true
    rw [hhead]
    rfl
  cases c with
  | upsertingPlugin description =>
    obtain ⟨ht, rfl⟩ := Prod.mk.inj (Option.some.inj hw)
    cases ht
    exact ⟨rfl, rfl, hrepublish rfl⟩
  | deletingPlugin =>
    obtain ⟨ht, rfl⟩ := Prod.mk.inj (Option.some.inj hw)
    cases ht
    exact ⟨rfl, rfl, rfl⟩
  | savingSkill skill files =>
    obtain ⟨ht, rfl⟩ := Prod.mk.inj (Option.some.inj hw)
    refine ⟨rfl, rfl, hrepublish ?_⟩
    unfold Tables.saveSkill at ht
    split_ifs at ht
    exact Tables.bumpGeneration_plugin ht
  | deletingSkill skill =>
    obtain ⟨ht, rfl⟩ := Prod.mk.inj (Option.some.inj hw)
    exact ⟨rfl, rfl, hrepublish (Tables.bumpGeneration_plugin ht)⟩
  | _ => cases hw

theorem Call.Sound.of_past {past' : List Content} (h : c.Sound pack past t)
    (hsub : ∀ p ∈ past, p ∈ past') (hread : c.isReading = false) : c.Sound pack past' t' := by
  cases c with
  | finished answer =>
    cases answer with
    | error e => exact sound_error e
    | ok answer =>
      cases answer with
      | written =>
        intro hread
        cases hread
      | resolved version digest =>
        cases version with
        | hash hash =>
          intro hread
          cases hread
        | generation generation =>
          obtain ⟨p, hp, hpack⟩ := h
          exact ⟨p, hsub p hp, hpack⟩
      | served generation bytes =>
        obtain ⟨p, hp, hpack⟩ := h
        exact ⟨p, hsub p hp, hpack⟩
  | _ => exact sound_of_not_reading rfl hread

theorem mem_append_content {content : Content} (h : t'.content = some content) :
    content ∈ past ++ t'.content.toList := by
  rw [h]
  exact List.mem_append_right _ (List.mem_singleton_self _)

/-- A write to the tables that no reading overlaps, and that packs like what was written for its
generation before. -/
theorem World.Agrees.of_write (h : w.Agrees pack) (hi : w.calls[i]? = some c)
    (hreading : ∀ e ∈ w.calls, e.isReading = false) (hrepeats : w.repeats pack t' = true)
    (hc' : c'.Sound pack (w.past ++ t'.content.toList) t')
    (hmends : c'.mends pack t' = true ∨ w.mendedBeside pack t' i = true) :
    World.Agrees pack
      ⟨t', w.published, w.calls.set i c', w.past ++ t'.content.toList⟩ where
  current content hcontent := mem_append_content hcontent
  past := by
    have hnew : ∀ p ∈ w.past, ∀ content, t'.content = some content →
        p.head.generation = content.head.generation → pack p = pack content := by
      intro p hp content hcontent hgeneration
      have hall := List.all_eq_true.mp hrepeats p hp
      rw [hcontent] at hall
      exact (of_decide_eq_true hall).resolve_left (not_not.mpr hgeneration)
    intro p hp p' hp' hgeneration
    rcases List.mem_append.mp hp with hp | hp
    · rcases List.mem_append.mp hp' with hp' | hp'
      · exact h.past p hp p' hp' hgeneration
      · exact hnew p hp p' (Option.mem_toList.mp hp') hgeneration
    · rcases List.mem_append.mp hp' with hp' | hp'
      · exact (hnew p' hp' p (Option.mem_toList.mp hp) hgeneration.symm).symm
      · have hsame := (Option.mem_toList.mp hp).symm.trans (Option.mem_toList.mp hp')
        rw [Option.some.inj hsame]
  calls e he := by
    rcases List.mem_or_eq_of_mem_set he with he | rfl
    · exact (h.calls e he).of_past (fun p hp => List.mem_append_left _ hp) (hreading e he)
    · exact hc'
  mended := by
    rcases hmends with hc | hbeside
    · exact .inr ⟨c', List.mem_set (List.getElem?_eq_some_iff.mp hi).1 c', hc⟩
    · exact .inr (mended_of_beside hbeside c')

/-! ### Runs -/

theorem mends_of_writes {r : Except String Tables × Call} (hw : writes name t c = some r) :
    c.mends pack t' = false := by
  cases c with
  | upsertingPlugin description => rfl
  | deletingPlugin => rfl
  | savingSkill skill files => rfl
  | deletingSkill skill => rfl
  | _ => cases hw

theorem Outcome.next_error_of_not_commits (ho : ¬o.commits = true) (c : Call) :
    ∃ e, o.next c = .finished (.error e) := by
  cases o with
  | ok => exact absurd rfl ho
  | error e => exact ⟨e, rfl⟩
  | lost e => exact absurd rfl ho

theorem World.Agrees.act_writes (h : w.Agrees pack) (hi : w.calls[i]? = some c)
    (hw : writes name w.tables c = some (.ok t', c'))
    (hg : w.heeds pack name (.act i o now) = true) : (w.act pack name i c o now).Agrees pack := by
  simp only [World.heeds, hi, hw, Bool.or_eq_true, Bool.not_eq_true', Bool.and_eq_true,
    List.all_eq_true, decide_eq_true_eq] at hg
  obtain ⟨hread, hfin, hmends⟩ : c'.isReading = false ∧ c'.isFinished = false ∧
      c'.mends pack t' = true := writes_mends hw
  simp only [World.act, hw]
  split_ifs with ho
  · obtain ⟨⟨hreading, hrepeats⟩, hlost⟩ := hg.resolve_left (by rw [ho]; intro hno; cases hno)
    refine h.of_write hi hreading hrepeats (Call.Sound.next ?_) ?_
    · exact Call.sound_of_not_reading hfin hread
    · rcases hlost with rfl | hbeside
      · exact .inl hmends
      · exact .inr hbeside
  · obtain ⟨e, he⟩ := Outcome.next_error_of_not_commits ho c'
    rw [he]
    refine h.of_call hi (Call.sound_error e) fun hno => ?_
    rw [mends_of_writes hw] at hno
    cases hno

theorem World.Agrees.act_publishes {row : Option PluginRow} (h : w.Agrees pack)
    (hi : w.calls[i]? = some c) (hw : writes name w.tables c = none)
    (hp : publishes now c = some row) (hg : w.heeds pack name (.act i o now) = true) :
    (w.act pack name i c o now).Agrees pack := by
  have hlt := (List.getElem?_eq_some_iff.mp hi).1
  have hsound : ∀ o : Outcome, (o.next (.finished (.ok .written))).Sound pack w.past w.tables := by
    intro o
    refine Call.Sound.next ?_
    intro hread
    cases hread
  simp only [World.heeds, hi, hw, hp] at hg
  simp only [World.act, hw, hp]
  split_ifs at hg ⊢ with ho
  · refine ⟨h.current, h.past, fun e he => ?_, ?_⟩
    · rcases List.mem_or_eq_of_mem_set he with he | rfl
      · exact h.calls e he
      · exact hsound o
    · rcases Bool.or_eq_true_iff.mp hg with hmends | hbeside
      · exact .inl (publishes_isPublished hp hmends _)
      · exact .inr (mended_of_beside hbeside _)
  · refine h.of_call hi (hsound o) fun hmends => ?_
    simp only [hmends, Bool.not_true, Bool.false_or, Bool.or_eq_true] at hg
    exact .inr hg

theorem World.Agrees.act_reads (h : w.Agrees pack) (hi : w.calls[i]? = some c)
    (hw : writes name w.tables c = none) (hp : publishes now c = none)
    (hg : w.heeds pack name (.act i o now) = true) : (w.act pack name i c o now).Agrees pack := by
  have hc := h.calls c (List.mem_of_getElem? hi)
  simp only [World.heeds, hi, hw, hp, Bool.and_eq_true] at hg
  obtain ⟨hnames, hends⟩ := hg
  simp only [World.act, hw, hp]
  refine h.of_call hi ?_ fun hmends => ?_
  · by_cases ho : o = .ok
    · subst ho
      refine read_sound hc h.current fun row generation hrow hkind hcall => ?_
      have hnamesTables : w.namesTables = true := by
        rcases hcall with rfl | rfl
        · exact (Bool.or_eq_true_iff.mp hnames).resolve_left (by simp)
        · simpa [hrow, hkind] using hnames
      rw [World.namesTables, hrow, Option.all_some, hkind] at hnamesTables
      exact hnamesTables
    · cases o with
      | ok => exact absurd rfl ho
      | error e => exact Call.sound_error e
      | lost e => exact Call.sound_error e
  · simp only [hmends, Bool.not_true, Bool.false_or, Bool.or_eq_true, Bool.not_eq_true'] at hends
    rcases hends with (hgoes | hpub) | hbeside
    · cases o with
      | ok =>
        refine .inl ((read_mends hp hmends).resolve_left ?_)
        intro hfin
        exact absurd (hgoes.symm.trans hfin) (by decide)
      | error e => cases hgoes
      | lost e => cases hgoes
    · exact .inr (.inl hpub)
    · exact .inr (.inr hbeside)

theorem World.Agrees.step {l : Label} (h : w.Agrees pack) (hg : w.heeds pack name l = true)
    (hstep : w.step? pack name l = some w') : w'.Agrees pack := by
  cases l with
  | call r =>
    cases hstep
    refine ⟨h.current, h.past, fun c hc => ?_, ?_⟩
    · rcases List.mem_append.mp hc with hc | hc
      · exact h.calls c hc
      · obtain rfl := List.mem_singleton.mp hc
        cases r <;> exact Call.sound_of_not_reading rfl rfl
    · rcases h.mended with hpub | ⟨c, hc, hmends⟩
      · exact .inl hpub
      · exact .inr ⟨c, List.mem_append_left _ hc, hmends⟩
  | act i o now =>
    simp only [World.step?] at hstep
    split at hstep
    · cases hstep
    · rename_i c hi
      cases hstep
      cases hw : writes name w.tables c with
      | some r =>
        obtain ⟨written, next⟩ := r
        cases written with
        | error e =>
          simp only [World.act, hw]
          refine h.of_call hi (Call.sound_error e) fun hno => ?_
          rw [mends_of_writes hw] at hno
          cases hno
        | ok t => exact h.act_writes hi hw hg
      | none =>
        cases hp : publishes now c with
        | some row => exact h.act_publishes hi hw hp hg
        | none => exact h.act_reads hi hw hp hg

/-- Nothing is under way, and the library's row is of what the tables hold. -/
structure World.Fresh (pack : Content → Except String PluginBundle) (w : World) : Prop where
  calls : w.calls = []
  past : w.past = w.tables.content.toList
  published : w.isPublished pack = true

theorem World.Fresh.agrees (h : w.Fresh pack) : w.Agrees pack where
  current c hc := by
    rw [h.past, hc]
    exact List.mem_singleton_self c
  past c hc c' hc' _ := by
    rw [h.past] at hc hc'
    rw [Option.some.inj ((Option.mem_toList.mp hc).symm.trans (Option.mem_toList.mp hc'))]
  calls c hc := by
    rw [h.calls] at hc
    cases hc
  mended := .inl h.published

def authoring (pack : Content → Except String PluginBundle) (name : String) :
    System World Label where
  Init := World.Fresh pack
  Step w l w' := w.step? pack name l = some w'

theorem World.Agrees.oneName {sha256 : Bytes → String} (h : w.Agrees pack)
    (hsha : ∀ c b, pack c = .ok b → b.hash = sha256 b.zipBytes) : w.OneName pack sha256 where
  resolved generation digest digest' hd hd' := by
    obtain ⟨c, hc, rfl, b, hb, rfl⟩ := h.calls _ hd
    obtain ⟨c', hc', hgeneration, b', hb', rfl⟩ := h.calls _ hd'
    have hsame := h.past c' hc' c hc hgeneration
    rw [hb, hb'] at hsame
    rw [Except.ok.inj hsame]
  served generation digest bytes hd hbytes := by
    obtain ⟨c, hc, rfl, b, hb, rfl⟩ := h.calls _ hd
    obtain ⟨c', hc', hgeneration, b', hb', rfl⟩ := h.calls _ hbytes
    have hsame := h.past c' hc' c hc hgeneration
    rw [hb, hb'] at hsame
    rw [Except.ok.inj hsame]
    exact (hsha c b hb).symm
  published hquiet := by
    rcases h.mended with hpub | ⟨c, hc, hmends⟩
    · exact hpub
    · obtain ⟨hwriting, -⟩ := Bool.and_eq_true_iff.mp hmends
      rw [hquiet c hc] at hwriting
      cases hwriting

variable {tools : Tools} {printers : Printers}

theorem packContent_hash {content : Content} {b : PluginBundle}
    (h : packContent tools printers name content = .ok b) :
    b.hash = tools.sha256 b.zipBytes := by
  unfold packContent at h
  cases htree : renderTree printers name content with
  | error e =>
    rw [htree] at h
    cases h
  | ok tree =>
    rw [htree] at h
    exact bundleFromDir_hash h

def emptyWorld : World := ⟨⟨none, ∅, ∅⟩, none, [], []⟩

theorem fresh_emptyWorld : emptyWorld.Fresh pack := ⟨rfl, rfl, rfl⟩

/-- JSON and YAML of plain strings. -/
def notePrinters : Printers where
  manifest schema name version description :=
    let members := [("$schema", schema), ("name", name), ("version", version)] ++
      (description.map fun d => ("description", d)).toList
    let lines := members.map fun m => s!"  \"{m.1}\": \"{m.2}\""
    "\x7b\n" ++ ",\n".intercalate lines ++ "\n\x7d"
  yaml pairs := String.join (pairs.map fun p => s!"{p.1}: {p.2}\n")

/-- The versions and descriptions that are read back here. -/
def noteManifests : List (String × String) :=
  [("0.0.1", "draft"), ("0.0.2", "final"), ("0.0.1", "final")]

/-- The other code, as far as the plugin needs it; an archive and its digest tell its files. -/
def noteTools : Tools where
  manifestJson text :=
    match noteManifests.find? fun m =>
      notePrinters.manifest schema "notes" m.1 (some m.2) = text with
    | none => .error ""
    | some m => .ok ⟨some schema, some "notes", some m.1, some m.2, none, none, none⟩
  marketplaceJson _ := .error ""
  json _ := .error ""
  yamlMapping _ := none
  zip files := .ok (files.flatMap fun f => textBytes f.1 ++ 0 :: f.2 ++ [0])
  sha256 bytes := String.ofList (bytes.map fun b => Char.ofNat b.toNat)
  headSha _ := none

def packNotes : Content → Except String PluginBundle :=
  packContent noteTools notePrinters "notes"

def writeNotes (i : ℕ) (description : String) : List Label :=
  .call (.writePlugin (some description)) :: List.replicate 6 (.act i .ok "1")

def Call.resolvedAs : Call → Option (ℕ × String)
  | .finished (.ok (.resolved (.generation generation) digest)) => some (generation, digest)
  | _ => none

theorem eq_of_resolvedAs {generation : ℕ} {digest : String}
    (h : c.resolvedAs = some (generation, digest)) :
    c = .finished (.ok (.resolved (.generation generation) digest)) := by
  unfold Call.resolvedAs at h
  split at h
  · cases h
    rfl
  · cases h

end Horsie.Plugins.Authored
