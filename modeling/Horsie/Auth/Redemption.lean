import Horsie.Auth.Service
import Horsie.Lib.Take

/-!
# One credential, one redemption

A device code and a refresh token are each read, found good and then used up by a statement of its
own that does not ask whether it was used up in between; the pair is issued in two more, which do
not ask whether a replay revoked the chain in between. A run in which the statements find what was
read redeems every credential at most once, and nothing comes back to life in a revoked chain.
-/

namespace Horsie.Auth

open Horsie.Lib

variable {hashSecret : String → String}

/-! ## Later tables -/

structure Token.Later (row row' : Token) : Prop where
  id : row'.id = row.id
  tokenHash : row'.tokenHash = row.tokenHash
  chainId : row'.chainId = row.chainId
  revoked : row.revokedAt.isSome → row'.revokedAt.isSome

structure DeviceCode.Later (row row' : DeviceCode) : Prop where
  deviceCodeHash : row'.deviceCodeHash = row.deviceCodeHash
  consumed : row.consumedAt.isSome → row'.consumedAt.isSome

theorem Token.Later.refl (row : Token) : row.Later row := ⟨rfl, rfl, rfl, fun h => h⟩

theorem DeviceCode.Later.refl (row : DeviceCode) : row.Later row := ⟨rfl, fun h => h⟩

/-- The tables later: every token is still there, and what is new is in one chain, or a code with
one hash. -/
structure AuthStore.Later (s s' : AuthStore) (chain code : Option String) : Prop where
  kept : ∀ row ∈ s.tokens.rows, ∃ row' ∈ s'.tokens.rows, row.Later row'
  token : ∀ row' ∈ s'.tokens.rows,
    (∃ row ∈ s.tokens.rows, row.Later row') ∨ row'.chainId = chain
  deviceCode : ∀ row' ∈ s'.deviceCodes.rows,
    (∃ row ∈ s.deviceCodes.rows, row.Later row') ∨ some row'.deviceCodeHash = code

namespace AuthStore

variable {s s' : AuthStore} {chain code : Option String}

theorem Later.refl (s : AuthStore) : s.Later s chain code where
  kept row h := ⟨row, h, .refl row⟩
  token row h := .inl ⟨row, h, .refl row⟩
  deviceCode row h := .inl ⟨row, h, .refl row⟩

theorem later_of_change {p : Token → Bool} {f : Token → Token}
    (hf : ∀ row : Token, row.Later (f row))
    (row : Token) : row.Later (Table.change p f row) := by
  unfold Table.change
  split
  · exact hf row
  · exact .refl row

theorem later_revokeWhere (p : Token → Bool) (now : ℤ) :
    s.Later (s.revokeWhere p now) chain code := by
  have hrow : ∀ row : Token, row.Later { row with revokedAt := some now } := fun row =>
    ⟨rfl, rfl, rfl, fun _ => rfl⟩
  refine ⟨fun row h => ?_, fun row' h => ?_, fun row' h => .inl ⟨row', h, .refl row'⟩⟩
  · exact ⟨_, List.mem_map_of_mem h, later_of_change hrow row⟩
  · obtain ⟨row, hrow', rfl⟩ := List.mem_map.mp h
    exact .inl ⟨row, hrow', later_of_change hrow row⟩

theorem later_updateCodes {p : DeviceCode → Bool} {f : DeviceCode → DeviceCode}
    {hkeys : ∀ key ∈ deviceCodeKeys, ∀ r, key (f r) = key r}
    (hf : ∀ row : DeviceCode, row.Later (f row)) :
    s.Later { s with deviceCodes := s.deviceCodes.update p f hkeys } chain code := by
  refine ⟨fun row h => ⟨row, h, .refl row⟩, fun row h => .inl ⟨row, h, .refl row⟩, fun row' h => ?_⟩
  obtain ⟨row, hrow, rfl⟩ := List.mem_map.mp h
  refine .inl ⟨row, hrow, ?_⟩
  unfold Table.change
  split
  · exact hf row
  · exact .refl row

theorem later_purge (now : ℤ) : s.Later (s.purgeExpiredDeviceCodes now) chain code where
  kept row h := ⟨row, h, .refl row⟩
  token row h := .inl ⟨row, h, .refl row⟩
  deviceCode row h := .inl ⟨row, (Table.mem_delete.mp h).1, .refl row⟩

variable {now : ℤ}

theorem later_insertToken {id hash : String} {kind : TokenKind} {principal : Principal}
    {label chainId : Option String} {expiresAt : Option ℤ}
    (h : s.insertToken id kind principal hash label chainId expiresAt now = some s') :
    s.Later s' chainId code := by
  obtain ⟨tokens, hins, rfl⟩ := Option.map_eq_some_iff.mp h
  refine ⟨fun row hrow => ⟨row, (Table.mem_insert? hins).mpr (.inl hrow), .refl row⟩,
    fun row' hrow' => ?_, fun row hrow => .inl ⟨row, hrow, .refl row⟩⟩
  rcases (Table.mem_insert? hins).mp hrow' with hold | rfl
  · exact .inl ⟨row', hold, .refl row'⟩
  · exact .inr rfl

theorem later_insertDeviceCode {deviceHash userCode : String} {expiresAt : ℤ}
    (h : s.insertDeviceCode deviceHash userCode now expiresAt = some s') :
    s.Later s' chain (some deviceHash) := by
  obtain ⟨deviceCodes, hins, rfl⟩ := Option.map_eq_some_iff.mp h
  refine ⟨fun row hrow => ⟨row, hrow, .refl row⟩, fun row hrow => .inl ⟨row, hrow, .refl row⟩,
    fun row' hrow' => ?_⟩
  rcases (Table.mem_insert? hins).mp hrow' with hold | rfl
  · exact .inl ⟨row', hold, .refl row'⟩
  · exact .inr rfl

theorem revoked_of_revokeWhere {p : Token → Bool} {row : Token}
    (h : row ∈ (s.revokeWhere p now).tokens.rows) (hrow : p row = true) : row.revokedAt.isSome := by
  obtain ⟨old, -, rfl⟩ := List.mem_map.mp h
  unfold Table.change at hrow ⊢
  split
  · rfl
  · rename_i hnot
    rw [if_neg hnot] at hrow
    simpa [hrow, Option.isSome_iff_ne_none] using hnot

end AuthStore

/-! ## Tasks -/

def Task.inserts : Task → Option String
  | insertAccess _ chainId | insertRefresh _ chainId _ => some chainId
  | _ => none

def Task.insertsCode (hash : String) : Task → Option String
  | insertDeviceCode => some hash
  | _ => none

theorem later_afterInsert {s : AuthStore} {inserted : Option AuthStore} {next failed : Task}
    {chain code : Option String} (h : ∀ s', inserted = some s' → s.Later s' chain code) :
    s.Later (afterInsert s inserted next failed).1 chain code := by
  cases hins : inserted with
  | none => exact .refl s
  | some s' => exact h s' hins

/-- What every statement does to the tables. -/
theorem later_run (task : Task) (now : ℤ) (new : Generated) (s : AuthStore) :
    s.Later (task.run hashSecret now new s).1 task.inserts
      (task.insertsCode (hashSecret new.secret)) := by
  cases task with
  | purgeExpired => exact AuthStore.later_purge now
  | insertDeviceCode => exact later_afterInsert fun s' h => AuthStore.later_insertDeviceCode h
  | approveDeviceCode userCode principal =>
    exact AuthStore.later_updateCodes fun row => ⟨rfl, fun h => h⟩
  | denyDeviceCode userCode => exact AuthStore.later_updateCodes fun row => ⟨rfl, fun h => h⟩
  | consumeDeviceCode deviceHash principal =>
    exact AuthStore.later_updateCodes fun row => ⟨rfl, fun _ => rfl⟩
  | markDevicePolled deviceHash => exact AuthStore.later_updateCodes fun row => ⟨rfl, fun h => h⟩
  | revokeChain chainId => exact AuthStore.later_revokeWhere _ now
  | retireToken id principal chainId => exact AuthStore.later_revokeWhere _ now
  | revokeToken id => exact AuthStore.later_revokeWhere _ now
  | insertAccess | insertRefresh | insertToken =>
    exact later_afterInsert fun s' h => AuthStore.later_insertToken h
  | getDeviceCode | lookupToken | retiredExists | tokenExists | done => exact .refl s

/-! ## Credentials -/

inductive Credential
  | deviceCode (hash : String)
  | refreshToken (hash : String)
deriving DecidableEq

def Call.credential (hashSecret : String → String) (call : Call) : Option Credential :=
  match call.request with
  | .pollDeviceToken deviceCode => some (.deviceCode (hashSecret deviceCode))
  | .refresh refreshToken => some (.refreshToken (hashSecret refreshToken))
  | _ => none

/-- No credential yields two pairs, and nothing is live in a chain that a replay revoked. -/
structure OneRedemption (hashSecret : String → String) (w : World) : Prop where
  once : ∀ (i j : ℕ) (call call' : Call) pair pair',
    w.calls[i]? = some call → w.calls[j]? = some call' →
    call.credential hashSecret = call'.credential hashSecret →
    call.task = .done (.issued pair) → call'.task = .done (.issued pair') → i = j
  chain : ∀ chain ∈ w.replayed, ∀ row ∈ w.store.tokens.rows, row.chainId = some chain →
    ∀ now, row.live now = false

/-- The statement finds what the call read: the code is there and not consumed, the token not
revoked, the chain not revoked by a replay. -/
def Task.unraced (w : World) : Task → Bool
  | consumeDeviceCode deviceHash _ =>
    (w.store.getDeviceCode deviceHash).any fun row => row.consumedAt.isNone
  | retireToken id _ _ => (w.store.tokens.find Token.id id).any fun row => row.revokedAt.isNone
  | insertAccess _ chainId | insertRefresh _ chainId _ => !w.replayed.contains chainId
  | _ => true

def unraced (w : World) : Label → Bool
  | .arrive _ _ => true
  | .statement i _ => (w.calls[i]?).all fun call => call.task.unraced w

/-! ## The invariant -/

/-- The call has used its credential up. -/
def Task.spent : Task → Bool
  | .retiredExists _ _ _ | .insertAccess _ _ | .insertRefresh _ _ _ | .done (.issued _) => true
  | _ => false

def Credential.Used (s : AuthStore) (codes : List String) : Credential → Prop
  | deviceCode hash => hash ∈ codes ∧
      ∀ row ∈ s.deviceCodes.rows, row.deviceCodeHash = hash → row.consumedAt.isSome
  | refreshToken hash => ∃ row ∈ s.tokens.rows, row.tokenHash = hash ∧ row.revokedAt.isSome

/-- Where a task stands is about its call's credential, and a credential it has used up is marked as
used. -/
def Task.Sound (s : AuthStore) (codes : List String) (credential : Option Credential) :
    Task → Prop
  | .getDeviceCode hash => credential = some (.deviceCode hash)
  | .consumeDeviceCode hash _ => credential = some (.deviceCode hash) ∧ hash ∈ codes
  | .lookupToken hash => credential = some (.refreshToken hash)
  | .retireToken id _ _ =>
    ∃ row ∈ s.tokens.rows, row.id = id ∧ credential = some (.refreshToken row.tokenHash)
  | task => task.spent = true → ∃ used, credential = some used ∧ used.Used s codes

structure World.Inv (hashSecret : String → String) (w : World) : Prop where
  sound : ∀ call ∈ w.calls, call.task.Sound w.store w.codes (call.credential hashSecret)
  codes : ∀ row ∈ w.store.deviceCodes.rows, row.deviceCodeHash ∈ w.codes
  distinct : ∀ (i j : ℕ) (call call' : Call), w.calls[i]? = some call → w.calls[j]? = some call' →
    call.credential hashSecret = call'.credential hashSecret →
    call.task.spent = true → call'.task.spent = true → i = j
  chain : ∀ chain ∈ w.replayed, ∀ row ∈ w.store.tokens.rows, row.chainId = some chain →
    row.revokedAt.isSome

section

variable {s s' : AuthStore} {codes codes' : List String} {chain code : Option String}
  {credential : Option Credential} {task : Task} {now : ℤ} {new : Generated}

theorem Credential.Used.later {used : Credential} (h : used.Used s codes)
    (hs : s.Later s' chain code) (hsub : codes ⊆ codes') (hnew : ∀ hash ∈ codes, some hash ≠ code) :
    used.Used s' codes' := by
  cases used with
  | deviceCode hash =>
    obtain ⟨hmem, hall⟩ := h
    refine ⟨hsub hmem, fun row' hrow' hhash => ?_⟩
    rcases hs.deviceCode row' hrow' with ⟨row, hrow, hlater⟩ | hins
    · exact hlater.consumed (hall row hrow (hlater.deviceCodeHash.symm.trans hhash))
    · exact absurd hins (hhash ▸ hnew hash hmem)
  | refreshToken hash =>
    obtain ⟨row, hrow, hhash, hrevoked⟩ := h
    obtain ⟨row', hrow', hlater⟩ := hs.kept row hrow
    exact ⟨row', hrow', hlater.tokenHash.trans hhash, hlater.revoked hrevoked⟩

theorem Task.Sound.later (h : task.Sound s codes credential) (hs : s.Later s' chain code)
    (hsub : codes ⊆ codes') (hnew : ∀ hash ∈ codes, some hash ≠ code) :
    task.Sound s' codes' credential := by
  have hspent : (task.spent = true → ∃ used, credential = some used ∧ used.Used s codes) →
      task.spent = true → ∃ used, credential = some used ∧ used.Used s' codes' := by
    intro h hspent
    obtain ⟨used, hcred, hused⟩ := h hspent
    exact ⟨used, hcred, hused.later hs hsub hnew⟩
  cases task with
  | getDeviceCode | lookupToken => exact h
  | consumeDeviceCode hash principal => exact ⟨h.1, hsub h.2⟩
  | retireToken id principal chainId =>
    obtain ⟨row, hrow, hid, hcred⟩ := h
    obtain ⟨row', hrow', hlater⟩ := hs.kept row hrow
    exact ⟨row', hrow', hlater.id.trans hid, by rw [hlater.tokenHash, hcred]⟩
  | purgeExpired | insertDeviceCode | approveDeviceCode | denyDeviceCode | markDevicePolled
  | revokeChain | retiredExists | insertAccess | insertRefresh | insertToken | revokeToken
  | tokenExists | done => exact hspent h

theorem sound_done {answer : Answer} (h : ∀ pair, answer ≠ .issued pair) :
    (Task.done answer).Sound s codes credential := by
  intro hspent
  cases answer with
  | issued pair => exact absurd rfl (h pair)
  | authorized | flag | refused | minted | failed => cases hspent

variable {hash : String}

theorem sound_afterDeviceCode {row : Option DeviceCode}
    (hcred : credential = some (.deviceCode hash)) (hrow : row.isSome → hash ∈ codes) :
    (Task.afterDeviceCode now hash row).Sound s codes credential := by
  have hrefused : ∀ error, (Task.done (.refused error)).Sound s codes credential := fun error =>
    sound_done fun pair => nofun
  unfold Task.afterDeviceCode
  cases row with
  | none => exact hrefused _
  | some row =>
    dsimp only
    split
    · exact hrefused _
    · split
      · exact hrefused _
      · split
        · exact ⟨hcred, hrow rfl⟩
        · split
          · exact hrefused _
          · exact nofun

theorem sound_afterToken {row : Option Token}
    (hcred : credential = some (.refreshToken hash))
    (hrow : ∀ row', row = some row' → row' ∈ s.tokens.rows ∧ row'.tokenHash = hash) :
    (Task.afterToken now row).Sound s codes credential := by
  have hrefused : ∀ error, (Task.done (.refused error)).Sound s codes credential := fun error =>
    sound_done fun pair => nofun
  unfold Task.afterToken
  cases row with
  | none => exact hrefused _
  | some row =>
    obtain ⟨hmem, hhash⟩ := hrow row rfl
    dsimp only
    split_ifs
    · exact hrefused _
    · cases row.chainId with
      | none => exact hrefused _
      | some chainId => exact nofun
    · exact hrefused _
    · exact ⟨row, hmem, rfl, by rw [hcred, hhash]⟩

theorem sound_afterInsert {inserted : Option AuthStore} {next failed : Task}
    (hnext : ∀ s', inserted = some s' → next.Sound s' codes credential)
    (hfailed : failed.Sound s codes credential) :
    (afterInsert s inserted next failed).2.Sound (afterInsert s inserted next failed).1 codes
      credential := by
  cases hins : inserted with
  | none => exact hfailed
  | some s' => exact hnext s' hins

/-- A task's own statement leaves its standing right: what uses its credential up marks it. -/
theorem Task.Sound.run (h : task.Sound s codes credential)
    (hcodes : ∀ row ∈ s.deviceCodes.rows, row.deviceCodeHash ∈ codes) :
    (task.run hashSecret now new s).2.Sound (task.run hashSecret now new s).1 codes credential := by
  cases task with
  | purgeExpired => exact nofun
  | insertDeviceCode => exact sound_afterInsert (fun _ _ => sound_done nofun) (sound_done nofun)
  | approveDeviceCode | denyDeviceCode => exact sound_done nofun
  | getDeviceCode hash =>
    refine sound_afterDeviceCode h fun hrow => ?_
    obtain ⟨row, hrow⟩ := Option.isSome_iff_exists.mp hrow
    obtain ⟨hmem, hhash⟩ := Table.mem_of_find hrow
    exact hhash ▸ hcodes row hmem
  | consumeDeviceCode hash principal =>
    obtain ⟨hcred, hmem⟩ := h
    refine fun _ => ⟨.deviceCode hash, hcred, hmem, fun row hrow hhash => ?_⟩
    obtain ⟨old, -, rfl⟩ := List.mem_map.mp hrow
    unfold Table.change at hhash ⊢
    split
    · rfl
    · rename_i hnot
      rw [if_neg hnot] at hhash
      exact absurd (decide_eq_true hhash) hnot
  | markDevicePolled | revokeChain => exact sound_done nofun
  | lookupToken hash => exact sound_afterToken h fun row hrow => Table.mem_of_find hrow
  | retireToken id principal chainId =>
    obtain ⟨row, hrow, hid, hcred⟩ := h
    have hused : Credential.Used (s.revokeToken id now).1 codes (.refreshToken row.tokenHash) := by
      have hstore : s.Later (s.revokeToken id now).1 none none :=
        AuthStore.later_revokeWhere (fun row => decide (row.id = id)) now
      obtain ⟨row', hrow', hlater⟩ := hstore.kept row hrow
      refine ⟨row', hrow', hlater.tokenHash, AuthStore.revoked_of_revokeWhere hrow' ?_⟩
      exact decide_eq_true (hlater.id.trans hid)
    unfold Task.run
    dsimp only
    split_ifs
    · exact fun _ => ⟨_, hcred, hused⟩
    · exact fun _ => ⟨_, hcred, hused⟩
  | retiredExists id principal chainId => exact fun _ => h rfl
  | insertAccess principal chainId =>
    refine sound_afterInsert (fun s' hins _ => ?_) (sound_done nofun)
    obtain ⟨used, hcred, hused⟩ := h rfl
    have hlater : s.Later s' (some chainId) none := AuthStore.later_insertToken hins
    exact ⟨used, hcred, hused.later hlater (List.Subset.refl _) nofun⟩
  | insertRefresh principal chainId accessToken =>
    refine sound_afterInsert (fun s' hins _ => ?_) (sound_done nofun)
    obtain ⟨used, hcred, hused⟩ := h rfl
    have hlater : s.Later s' (some chainId) none := AuthStore.later_insertToken hins
    exact ⟨used, hcred, hused.later hlater (List.Subset.refl _) nofun⟩
  | insertToken => exact sound_afterInsert (fun _ _ => sound_done nofun) (sound_done nofun)
  | revokeToken id =>
    unfold Task.run
    dsimp only
    split_ifs
    · exact sound_done nofun
    · exact nofun
  | tokenExists => exact sound_done nofun
  | done answer => exact h

theorem spent_afterInsert {inserted : Option AuthStore} {next failed : Task}
    (hnext : next.spent = false) (hfailed : failed.spent = false) :
    (afterInsert s inserted next failed).2.spent = false := by
  cases inserted with
  | none => exact hfailed
  | some s' => exact hnext

theorem spent_afterDeviceCode {row : Option DeviceCode} :
    (Task.afterDeviceCode now hash row).spent = false := by
  unfold Task.afterDeviceCode
  split
  · rfl
  · split
    · rfl
    · split
      · rfl
      · split
        · rfl
        · split <;> rfl

theorem spent_afterToken {row : Option Token} : (Task.afterToken now row).spent = false := by
  unfold Task.afterToken
  split
  · rfl
  · split
    · rfl
    · split
      · split <;> rfl
      · split <;> rfl

/-- Only two statements use a credential up: the one that consumes a code, and the one that retires
a token. -/
theorem spent_of_run (h : (task.run hashSecret now new s).2.spent = true) :
    task.spent = true ∨ (∃ hash principal, task = .consumeDeviceCode hash principal) ∨
      ∃ id principal chainId, task = .retireToken id principal chainId := by
  have hnot : (task.run hashSecret now new s).2.spent = false → task.spent = true ∨
      (∃ hash principal, task = .consumeDeviceCode hash principal) ∨
        ∃ id principal chainId, task = .retireToken id principal chainId := by
    intro hfalse
    rw [hfalse] at h
    cases h
  cases task with
  | consumeDeviceCode hash principal => exact .inr (.inl ⟨hash, principal, rfl⟩)
  | retireToken id principal chainId => exact .inr (.inr ⟨id, principal, chainId, rfl⟩)
  | retiredExists | insertAccess | insertRefresh => exact .inl rfl
  | done answer => exact .inl h
  | purgeExpired | approveDeviceCode | denyDeviceCode | markDevicePolled | revokeChain
  | tokenExists => exact hnot rfl
  | insertDeviceCode | insertToken => exact hnot (spent_afterInsert rfl rfl)
  | getDeviceCode => exact hnot spent_afterDeviceCode
  | lookupToken => exact hnot spent_afterToken
  | revokeToken id =>
    refine hnot ?_
    unfold Task.run
    dsimp only
    split <;> rfl

end

/-! ## Runs -/

section

variable {w w' : World} {task : Task} {credential : Option Credential} {used : Credential}

/-- A statement that finds what was read uses up a credential that was not used up. -/
theorem unused_of_unraced (h : task.Sound w.store w.codes credential)
    (hrace : task.unraced w = true) (hcred : credential = some used)
    (hnew : (∃ hash principal, task = .consumeDeviceCode hash principal) ∨
      ∃ id principal chainId, task = .retireToken id principal chainId) :
    ¬ used.Used w.store w.codes := by
  intro hused
  rcases hnew with ⟨hash, principal, rfl⟩ | ⟨id, principal, chainId, rfl⟩
  · obtain ⟨hown, -⟩ := h
    obtain rfl : used = .deviceCode hash := Option.some.inj (hcred.symm.trans hown)
    obtain ⟨row, hfind, hnone⟩ := (Option.any_eq_true _ _).mp hrace
    obtain ⟨hmem, hhash⟩ := Table.mem_of_find hfind
    have hsome := hused.2 row hmem hhash
    rw [Option.isNone_iff_eq_none.mp hnone] at hsome
    cases hsome
  · obtain ⟨row, hmem, hid, hown⟩ := h
    obtain rfl : used = .refreshToken row.tokenHash := Option.some.inj (hcred.symm.trans hown)
    obtain ⟨live, hfind, hnone⟩ := (Option.any_eq_true _ _).mp hrace
    obtain ⟨hlive, hliveId⟩ := Table.mem_of_find hfind
    obtain ⟨retired, hretired, hhash, hsome⟩ := hused
    have hkeys : Token.id ∈ tokenKeys ∧ Token.tokenHash ∈ tokenKeys := by
      simp [tokenKeys]
    obtain rfl := Table.eq_of_key hkeys.2 hretired hmem hhash
    obtain rfl := Table.eq_of_key hkeys.1 hlive hmem (hliveId.trans hid.symm)
    rw [Option.isNone_iff_eq_none.mp hnone] at hsome
    cases hsome

theorem sound_begin (request : Request) (now : ℤ) (s : AuthStore) (codes : List String) :
    (request.begin hashSecret).Sound s codes
      (Call.credential hashSecret ⟨request, now, request.begin hashSecret⟩) := by
  cases request with
  | pollDeviceToken => rfl
  | startDeviceAuthorization | approveDevice | denyDevice | login | revokeToken => exact nofun
  | refresh token =>
    unfold Request.begin
    dsimp only
    split
    · rfl
    · exact sound_done nofun
  | mintAgentToken label principal =>
    unfold Request.begin
    dsimp only
    split
    · exact sound_done nofun
    · exact nofun

theorem spent_begin (request : Request) : (request.begin hashSecret).spent = false := by
  cases request with
  | pollDeviceToken | startDeviceAuthorization | approveDevice | denyDevice | login
  | revokeToken => rfl
  | refresh | mintAgentToken =>
    unfold Request.begin
    dsimp only
    split <;> rfl

theorem World.Inv.init : World.init.Inv hashSecret where
  sound _ h := absurd h List.not_mem_nil
  codes _ h := absurd h List.not_mem_nil
  distinct _ _ _ _ h := by cases h
  chain _ h := absurd h List.not_mem_nil

theorem World.Inv.arrive (h : w.Inv hashSecret) (request : Request) (now : ℤ) :
    World.Inv hashSecret
      { w with calls := w.calls ++ [⟨request, now, request.begin hashSecret⟩] } := by
  refine { h with sound := ?_, distinct := ?_ }
  · intro call hcall
    rcases List.mem_append.mp hcall with hold | hnew
    · exact h.sound call hold
    · obtain rfl := List.mem_singleton.mp hnew
      exact sound_begin request now _ _
  · have hold : ∀ (k : ℕ) (call : Call),
        (w.calls ++ [⟨request, now, request.begin hashSecret⟩])[k]? = some call →
        call.task.spent = true → w.calls[k]? = some call := by
      intro k call hk hspent
      rcases getElem?_snoc_cases hk with hk | ⟨-, rfl⟩
      · exact hk
      · rw [spent_begin] at hspent
        cases hspent
    intro i j call call' hi hj hcred hspent hspent'
    exact h.distinct i j call call' (hold i call hi hspent) (hold j call' hj hspent') hcred hspent
      hspent'

theorem step_statement {i : ℕ} {new : Generated}
    (hs : w.step? hashSecret (.statement i new) = some w') : ∃ call, w.calls[i]? = some call ∧
      ¬ (call.task = .insertDeviceCode ∧ hashSecret new.secret ∈ w.codes) ∧
      w'.store = (call.task.run hashSecret call.now new w.store).1 ∧
      w'.calls = w.calls.set i
        { call with task := (call.task.run hashSecret call.now new w.store).2 } ∧
      w'.codes = (if call.task = .insertDeviceCode then hashSecret new.secret :: w.codes
        else w.codes) ∧
      ((∃ chainId, call.task = .revokeChain chainId ∧ w'.replayed = chainId :: w.replayed) ∨
        w'.replayed = w.replayed) := by
  unfold World.step? at hs
  cases hcall : w.calls[i]? with
  | none => simp [hcall] at hs
  | some call =>
    simp only [hcall] at hs
    obtain ⟨hrepeated, hs⟩ := Option.ite_none_left_eq_some.mp hs
    cases hs
    refine ⟨call, rfl, hrepeated, rfl, rfl, rfl, ?_⟩
    cases call.task with
    | revokeChain chainId => exact .inl ⟨chainId, rfl, rfl⟩
    | _ => exact .inr rfl

theorem World.Inv.statement {i : ℕ} {new : Generated} (h : w.Inv hashSecret)
    (hrace : unraced w (.statement i new) = true)
    (hs : w.step? hashSecret (.statement i new) = some w') : w'.Inv hashSecret := by
  obtain ⟨call, hcall, hfresh, hstore, hcalls, hcodes, hreplayed⟩ := step_statement hs
  have hmem : call ∈ w.calls := List.mem_of_getElem? hcall
  replace hrace : call.task.unraced w = true := by
    simpa only [unraced, hcall, Option.all_some] using hrace
  have hlater : w.store.Later w'.store call.task.inserts
      (call.task.insertsCode (hashSecret new.secret)) :=
    hstore ▸ later_run call.task call.now new w.store
  have hsub : w.codes ⊆ w'.codes := by
    rw [hcodes]
    split_ifs
    · exact List.subset_cons_self _ _
    · exact List.Subset.refl _
  have hnew : ∀ hash ∈ w.codes, some hash ≠ call.task.insertsCode (hashSecret new.secret) := by
    intro hash hold heq
    cases htask : call.task with
    | insertDeviceCode =>
      rw [htask] at heq
      cases heq
      exact hfresh ⟨htask, hold⟩
    | _ =>
      rw [htask] at heq
      cases heq
  have hrest : ∀ (k : ℕ) (c : Call), w'.calls[k]? = some c → (k ≠ i ∧ w.calls[k]? = some c) ∨
      k = i ∧ c = { call with task := (call.task.run hashSecret call.now new w.store).2 } := by
    intro k c hk
    rw [hcalls, List.getElem?_set] at hk
    split_ifs at hk with hki hlt
    · exact .inr ⟨hki.symm, (Option.some.inj hk).symm⟩
    · exact .inl ⟨fun he => hki he.symm, hk⟩
  refine ⟨fun c hc => ?_, fun row hrow => ?_, ?_, ?_⟩
  · obtain ⟨k, hk⟩ := List.mem_iff_getElem?.mp hc
    rcases hrest k c hk with ⟨-, hold⟩ | ⟨rfl, rfl⟩
    · exact (h.sound c (List.mem_of_getElem? hold)).later hlater hsub hnew
    · have hown : (call.task.run hashSecret call.now new w.store).2.Sound w'.store w.codes
          (call.credential hashSecret) := hstore ▸ (h.sound call hmem).run h.codes
      have hsame : w'.store.Later w'.store none none := .refl _
      exact hown.later hsame hsub nofun
  · rcases hlater.deviceCode row hrow with ⟨old, hold, hl⟩ | hins
    · exact hsub (hl.deviceCodeHash ▸ h.codes old hold)
    · rw [hcodes]
      cases htask : call.task with
      | insertDeviceCode =>
        rw [htask] at hins
        rw [if_pos rfl, Option.some.inj hins]
        exact List.mem_cons_self
      | _ =>
        rw [htask] at hins
        cases hins
  · have hother : ∀ (k : ℕ) (c : Call), k ≠ i → w.calls[k]? = some c →
        call.credential hashSecret = c.credential hashSecret →
        (call.task.run hashSecret call.now new w.store).2.spent = true → c.task.spent = true →
        False := by
      intro k c hki hk hcred hspent hspent'
      rcases spent_of_run hspent with hwas | hnow
      · exact hki (h.distinct i k call c hcall hk hcred hwas hspent').symm
      · have hsound := h.sound c (List.mem_of_getElem? hk)
        obtain ⟨used, hused, husedIn⟩ : ∃ used, c.credential hashSecret = some used ∧
            used.Used w.store w.codes := by
          cases htask : c.task with
          | retiredExists | insertAccess | insertRefresh | done =>
            rw [htask] at hsound hspent'
            exact hsound hspent'
          | _ =>
            rw [htask] at hspent'
            cases hspent'
        exact unused_of_unraced (h.sound call hmem) hrace (hcred.trans hused) hnow husedIn
    intro a b c c' ha hb hcred hspent hspent'
    rcases hrest a c ha with ⟨hai, ha⟩ | ⟨rfl, rfl⟩ <;>
      rcases hrest b c' hb with ⟨hbi, hb⟩ | ⟨rfl, rfl⟩
    · exact h.distinct a b c c' ha hb hcred hspent hspent'
    · exact (hother a c hai ha hcred.symm hspent' hspent).elim
    · exact (hother b c' hbi hb hcred hspent hspent').elim
    · rfl
  · intro chain hchain row hrow hid
    rcases hreplayed with ⟨chainId, htask, hreplayed⟩ | hreplayed
    · rw [hreplayed] at hchain
      rw [htask] at hlater hstore
      rcases List.mem_cons.mp hchain with rfl | hchain
      · rw [hstore] at hrow
        exact AuthStore.revoked_of_revokeWhere hrow (decide_eq_true hid)
      · rcases hlater.token row hrow with ⟨old, hold, hl⟩ | hins
        · exact hl.revoked (h.chain chain hchain old hold (hl.chainId.symm.trans hid))
        · rw [hid] at hins
          cases hins
    · rw [hreplayed] at hchain
      rcases hlater.token row hrow with ⟨old, hold, hl⟩ | hins
      · exact hl.revoked (h.chain chain hchain old hold (hl.chainId.symm.trans hid))
      · rw [hid] at hins
        have hnot : w.replayed.contains chain = false := by
          cases htask : call.task with
          | insertAccess | insertRefresh =>
            rw [htask] at hins hrace
            rw [Option.some.inj hins]
            simpa [Task.unraced] using hrace
          | _ =>
            rw [htask] at hins
            cases hins
        rw [List.contains_iff_mem.mpr hchain] at hnot
        cases hnot

theorem World.Inv.oneRedemption (h : w.Inv hashSecret) : OneRedemption hashSecret w where
  once i j call call' pair pair' hi hj hcred htask htask' :=
    h.distinct i j call call' hi hj hcred (by rw [htask]; rfl) (by rw [htask']; rfl)
  chain chain hchain row hrow hid now := by
    have hrevoked := h.chain chain hchain row hrow hid
    unfold Token.live
    rw [← Option.not_isSome, hrevoked, Bool.not_true, Bool.false_and]

end

def approved : List Label :=
  [.arrive .startDeviceAuthorization 0, .statement 0 ⟨"", "", ""⟩,
    .statement 0 ⟨"hsk_ref_d", "", "BCDF-GHJK"⟩,
    .arrive (.approveDevice "bcdfghjk" (.user "u")) 10, .statement 1 ⟨"", "", ""⟩]

/-- Two polls both read the approved code before either consumes it. -/
theorem redeemed_twice : ¬ ∀ hashSecret w, (service hashSecret).Reachable w →
    OneRedemption hashSecret w := by
  intro h
  have hrun : ((System.steps? (World.step? id) .init (approved ++
      [Label.arrive (.pollDeviceToken "hsk_ref_d") 20, .arrive (.pollDeviceToken "hsk_ref_d") 20,
        .statement 2 ⟨"", "", ""⟩, .statement 3 ⟨"", "", ""⟩,
        .statement 2 ⟨"", "chain", ""⟩, .statement 2 ⟨"hsk_usr_a", "1", ""⟩,
        .statement 2 ⟨"hsk_ref_a", "2", ""⟩,
        .statement 3 ⟨"", "chain'", ""⟩, .statement 3 ⟨"hsk_usr_b", "3", ""⟩,
        .statement 3 ⟨"hsk_ref_b", "4", ""⟩])).map fun w => w.calls.drop 2)
      = some
        [⟨.pollDeviceToken "hsk_ref_d", 20, .done (.issued ⟨"hsk_usr_a", "hsk_ref_a", 3600⟩)⟩,
          ⟨.pollDeviceToken "hsk_ref_d", 20, .done (.issued ⟨"hsk_usr_b", "hsk_ref_b", 3600⟩)⟩] :=
    by
    decide +kernel
  obtain ⟨w, hw, hcalls⟩ := Option.map_eq_some_iff.mp hrun
  obtain ⟨tr, htr, -⟩ := System.exec_steps? World.init hw
  have hcall : ∀ k, w.calls[2 + k]? = (w.calls.drop 2)[k]? := fun k => List.getElem?_drop.symm
  rw [hcalls] at hcall
  exact absurd ((h id w (htr.reachable (.init rfl))).once 2 3 _ _ _ _ (hcall 0) (hcall 1) rfl rfl
    rfl) (by decide)

/-- In a run whose statements find what was read, no credential is redeemed twice and no chain comes
back to life. -/
theorem one_redemption (hashSecret : String → String) {tr : List (World × Label × World)}
    {w : World} (h : (service hashSecret).Exec .init tr w)
    (hg : ∀ x ∈ tr, unraced x.1 x.2.1 = true) : OneRedemption hashSecret w := by
  have hinv : w.Inv hashSecret := by
    refine h.guarded (G := fun w l => unraced w l = true) (I := World.Inv hashSecret) ?_
      (.init rfl) .init hg
    intro w l w' _ hw hl hs
    cases l with
    | arrive request now =>
      cases hs
      exact hw.arrive request now
    | statement i new => exact hw.statement hl hs
  exact hinv.oneRedemption

/-- A poll, the rotation of its refresh token, and a replay that revokes the chain. -/
theorem one_redemption_replayed : ∃ tr w, (service id).Exec .init tr w ∧
    w.replayed = ["chain"] ∧ OneRedemption id w := by
  have hrun : ((System.steps? (System.guarded? (fun w l => unraced w l = true) (World.step? id))
      .init (approved ++
        [Label.arrive (.pollDeviceToken "hsk_ref_d") 20, .statement 2 ⟨"", "", ""⟩,
          .statement 2 ⟨"", "chain", ""⟩, .statement 2 ⟨"hsk_usr_a", "1", ""⟩,
          .statement 2 ⟨"hsk_ref_a", "2", ""⟩,
          .arrive (.refresh "hsk_ref_a") 30, .statement 3 ⟨"", "", ""⟩, .statement 3 ⟨"", "", ""⟩,
          .statement 3 ⟨"hsk_usr_b", "3", ""⟩, .statement 3 ⟨"hsk_ref_b", "4", ""⟩,
          .arrive (.refresh "hsk_ref_a") 40, .statement 4 ⟨"", "", ""⟩,
          .statement 4 ⟨"", "", ""⟩])).map (·.replayed)) = some ["chain"] := by
    decide +kernel
  obtain ⟨w, hw, hreplayed⟩ := Option.map_eq_some_iff.mp hrun
  obtain ⟨tr, htr, -, hall⟩ := System.exec_guarded? World.init hw
  exact ⟨tr, w, htr, hreplayed, one_redemption id htr hall⟩

end Horsie.Auth
