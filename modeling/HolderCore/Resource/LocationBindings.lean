import HolderCore.Privacy.SecretStore

/-! # Bindings of storage locations

`resource/LocationBindingStore.cpp`: how this machine reaches a storage location, and which location a
project prefers, kept in the secret store. Over any calls, rejected ones among them, the store is a
table of bindings by project and location and of preferred locations by project. -/

namespace HolderCore

open JsonLibrary (Text)

structure LocationBinding where
  version : Int := 1
  provider : String
  /-- `std::map`. -/
  values : List (String × String)
  ascend : KeysAscend values

variable {φ : Type}

def bindingJson (binding : LocationBinding) : JsonValue φ := .ofFields [
  ("provider", .string binding.provider),
  ("values", EncryptedFileSecretBackend.mapJson binding.values),
  ("version", .integer binding.version)]

namespace LocationBindingStore

def bindingService : String := "org.holder.StorageLocation"
def preferredService : String := "org.holder.PreferredStorageLocation"

def bindingAccount (projectId locationId : String) : Except SecretError String :=
  if projectId.isEmpty || locationId.isEmpty then
    .error (.exn (.invalidArgument "binding ids required"))
  else .ok (projectId ++ ":" ++ locationId)

/-- A record that is replaced keeps its time of creation. -/
def creationTime (existing : Option StoredSecret) (now : Int) : Int :=
  (existing.map (·.metadata.createdAt)).getD now

variable (env : SecretEnv φ)

def bind (projectId locationId : String) (binding : LocationBinding) (safePreview : String) (now : Int) :
    SecretM Unit := do
  if binding.version ≠ 1 ∨ binding.provider.isEmpty then
    throw (.exn (.invalidArgument "invalid location binding"))
  let account ← fromExcept (bindingAccount projectId locationId)
  let existing ← DefaultSecretStore.get env bindingService account
  let text ← fromExcept (secretJson (env.json.dump 0 (bindingJson binding)))
  DefaultSecretStore.set env bindingService account (String.ofList text) safePreview
    (creationTime existing now) now

def readBinding (json : JsonLibrary φ) (text : Bytes) : Except SecretError LocationBinding := do
  let body ← secretJson (json.parse text)
  let version ← secretJson (body.member "version" >>= json.getInteger 32)
  let provider ← secretJson (body.member "provider" >>= JsonValue.getString)
  let values ← secretJson (body.member "values" >>= JsonValue.getMap JsonValue.getString)
  if version ≠ 1 ∨ provider.isEmpty then throw (.exn (.runtimeError "unsupported location binding"))
  -- A map takes the fields in the order of their keys.
  return ⟨version, provider, emplaceAll values, keysAscend_emplaceAll values⟩

def get (projectId locationId : String) : SecretM (Option LocationBinding) := do
  let account ← fromExcept (bindingAccount projectId locationId)
  match ← DefaultSecretStore.get env bindingService account with
  | none => return none
  | some stored => return some (← fromExcept (readBinding env.json stored.secret.toList))

def preview (projectId locationId : String) : SecretM (Option String) := do
  let account ← fromExcept (bindingAccount projectId locationId)
  return (← DefaultSecretStore.get env bindingService account).map (·.metadata.preview)

def unbind (projectId locationId : String) : SecretM Unit := do
  let account ← fromExcept (bindingAccount projectId locationId)
  DefaultSecretStore.remove env bindingService account

def setPreferred (projectId locationId : String) (now : Int) : SecretM Unit := do
  if projectId.isEmpty || locationId.isEmpty then
    throw (.exn (.invalidArgument "preferred ids required"))
  let existing ← DefaultSecretStore.get env preferredService projectId
  DefaultSecretStore.set env preferredService projectId locationId locationId (creationTime existing now)
    now

def preferred (projectId : String) : SecretM (Option String) := do
  return (← DefaultSecretStore.get env preferredService projectId).map (·.secret)

def clearPreferred (projectId : String) : SecretM Unit :=
  DefaultSecretStore.remove env preferredService projectId

end LocationBindingStore

/-- A call that changes the bindings. -/
inductive BindingCall where
  | bind (projectId locationId : String) (binding : LocationBinding) (safePreview : String) (now : Int)
  | unbind (projectId locationId : String)
  | setPreferred (projectId locationId : String) (now : Int)
  | clearPreferred (projectId : String)

namespace BindingCall

def run (env : SecretEnv φ) : BindingCall → SecretM Unit
  | .bind projectId locationId binding safePreview now =>
    LocationBindingStore.bind env projectId locationId binding safePreview now
  | .unbind projectId locationId => LocationBindingStore.unbind env projectId locationId
  | .setPreferred projectId locationId now =>
    LocationBindingStore.setPreferred env projectId locationId now
  | .clearPreferred projectId => LocationBindingStore.clearPreferred env projectId

/-- What a call leaves behind, whether it returns or throws. -/
def after (env : SecretEnv φ) (files : SecretFiles) (call : BindingCall) : SecretFiles :=
  match call.run env files with
  | .ok _ files' => files'
  | .error _ files' => files'

end BindingCall

/-! ## The table -/

structure BoundLocation where
  binding : LocationBinding
  preview : String
  createdAt : Int
  updatedAt : Int

/-- What the store is for. -/
structure BindingTable where
  bindings : String → String → Option BoundLocation
  preferred : String → Option String

def BindingTable.empty : BindingTable := ⟨fun _ _ => none, fun _ => none⟩

/-- A call with the ids it needs, over a binding of the known version. -/
def BindingCall.Accepted : BindingCall → Prop
  | .bind projectId locationId binding _ _ => binding.version = 1 ∧ binding.provider ≠ "" ∧
    projectId ≠ "" ∧ locationId ≠ ""
  | .unbind projectId locationId | .setPreferred projectId locationId _ =>
    projectId ≠ "" ∧ locationId ≠ ""
  | .clearPreferred _ => True

instance : (call : BindingCall) → Decidable call.Accepted
  | .bind .. => inferInstanceAs (Decidable (_ ∧ _))
  | .unbind .. => inferInstanceAs (Decidable (_ ∧ _))
  | .setPreferred .. => inferInstanceAs (Decidable (_ ∧ _))
  | .clearPreferred _ => inferInstanceAs (Decidable True)

/-- What an accepted call does. A binding that is replaced keeps its time of creation. -/
def BindingCall.change : BindingCall → BindingTable → BindingTable
  | .bind projectId locationId binding preview now, table => { table with
    bindings := fun p l => if p = projectId ∧ l = locationId then
      some ⟨binding, preview, ((table.bindings projectId locationId).map (·.createdAt)).getD now, now⟩
      else table.bindings p l }
  | .unbind projectId locationId, table => { table with
    bindings := fun p l => if p = projectId ∧ l = locationId then none else table.bindings p l }
  | .setPreferred projectId locationId _, table => { table with
    preferred := fun p => if p = projectId then some locationId else table.preferred p }
  | .clearPreferred projectId, table => { table with
    preferred := fun p => if p = projectId then none else table.preferred p }

/-- A rejected call changes nothing. -/
def BindingCall.apply (table : BindingTable) (call : BindingCall) : BindingTable :=
  if call.Accepted then call.change table else table

/-! ## Bindings as secrets -/

/-- A binding that the store can hold. -/
structure BoundLocation.Fits (bound : BoundLocation) : Prop where
  version : bound.binding.version = 1
  provider : bound.binding.provider ≠ "" ∧ Text bound.binding.provider
  values : ∀ entry ∈ bound.binding.values, Text entry.1 ∧ Text entry.2
  preview : Text bound.preview
  createdAt : FitsSigned 64 bound.createdAt
  updatedAt : FitsSigned 64 bound.updatedAt

section
variable {env : SecretEnv φ} {files files' : SecretFiles}

theorem bindingJson_plain {binding : LocationBinding} (hversion : binding.version = 1)
    (hprovider : Text binding.provider) (hvalues : ∀ entry ∈ binding.values, Text entry.1 ∧ Text entry.2) :
    (bindingJson binding : JsonValue φ).Plain := by
  refine .ofFields ?_
  simp only [List.mem_cons, List.not_mem_nil, or_false, forall_eq_or_imp, forall_eq]
  exact ⟨⟨JsonLibrary.text_of_ascii (by decide), .string hprovider⟩,
    ⟨JsonLibrary.text_of_ascii (by decide),
      EncryptedFileSecretBackend.mapJson_plain binding.ascend hvalues⟩,
    ⟨JsonLibrary.text_of_ascii (by decide), .integer (by rw [hversion]; decide)⟩⟩

theorem emplaceAll_of_ascend {β : Type} {fields : List (String × β)} (h : KeysAscend fields) :
    emplaceAll fields = fields := by
  have hall : ∀ (rest before : List (String × β)), KeysAscend (before ++ rest) →
      rest.foldl (fun map field => emplace field.1 field.2 map) before = before ++ rest := by
    intro rest
    induction rest with
    | nil => simp
    | cons field rest ih =>
      intro before hascend
      have hlast : ∀ before : List (String × β), KeysAscend (before ++ field :: rest) →
          emplace field.1 field.2 before = before ++ [field] := by
        intro before
        induction before with
        | nil => exact fun _ => rfl
        | cons head before ihb =>
          intro h
          have hlt : head.1 < field.1 := h.head field (by simp)
          rw [List.cons_append, emplace, if_neg (not_lt.mpr hlt.le), if_neg hlt.ne', ihb h.tail]
      rw [List.foldl_cons, hlast before hascend, ih _ (by simpa using hascend)]
      simp
  exact hall fields [] h

/-- A binding that was written is read back. -/
theorem readBinding_dump (henv : env.Lawful) {binding : LocationBinding} (hversion : binding.version = 1)
    (hprovider : binding.provider ≠ "" ∧ Text binding.provider)
    (hvalues : ∀ entry ∈ binding.values, Text entry.1 ∧ Text entry.2) :
    ∃ text, env.json.dump 0 (bindingJson binding) = .ok text ∧ ValidUtf8 text ∧
      LocationBindingStore.readBinding env.json text = .ok binding := by
  obtain ⟨text, hdump, -, hvalid, hparse, -⟩ :=
    henv.json.parse_dump 0 (bindingJson_plain hversion hprovider.2 hvalues)
  refine ⟨text, hdump, hvalid, ?_⟩
  have hmap : (EncryptedFileSecretBackend.mapJson binding.values : JsonValue φ).getMap
      JsonValue.getString = .ok binding.values := JsonValue.getMap_object fun _ _ => rfl
  have hbody : secretJson (env.json.parse text) = .ok (bindingJson binding) := by
    rw [hparse]
    rfl
  have hv : secretJson ((bindingJson binding : JsonValue φ).member "version" >>= env.json.getInteger 32) =
      .ok binding.version := by
    have hfits : FitsSigned 32 binding.version := by
      rw [hversion]
      decide
    have hmember : (bindingJson binding : JsonValue φ).member "version" = .ok (.integer binding.version) := by
      simp [bindingJson, List.lookup]
    rw [Except.bind_of_ok hmember, JsonLibrary.getInteger_integer hfits]
    rfl
  have hp : secretJson ((bindingJson binding : JsonValue φ).member "provider" >>= JsonValue.getString) =
      .ok binding.provider := by
    simp [bindingJson, List.lookup, bind, Except.bind, JsonValue.getString, secretJson]
  have hm : secretJson ((bindingJson binding : JsonValue φ).member "values" >>=
      JsonValue.getMap JsonValue.getString) = .ok binding.values := by
    have hmember : (bindingJson binding : JsonValue φ).member "values" =
        .ok (EncryptedFileSecretBackend.mapJson binding.values) := by
      simp [bindingJson, List.lookup]
    rw [Except.bind_of_ok hmember, hmap]
    rfl
  have hknown : ¬(binding.version ≠ 1 ∨ binding.provider.isEmpty = true) := by
    simp [hversion, String.isEmpty_iff, hprovider.1]
  unfold LocationBindingStore.readBinding
  rw [Except.bind_of_ok hbody, Except.bind_of_ok hv, Except.bind_of_ok hp, Except.bind_of_ok hm,
    if_neg hknown]
  simp only [emplaceAll_of_ascend binding.ascend]
  rfl

end

namespace LocationBindingStore

/-- Accounts of projects without a colon do not collide. -/
theorem account_inj {p p' l l' : String} (hp : ':' ∉ p.toList) (hp' : ':' ∉ p'.toList)
    (h : p ++ ":" ++ l = p' ++ ":" ++ l') : p = p' ∧ l = l' := by
  have hlist := congrArg String.toList h
  have hcolon : ":".toList = [':'] := rfl
  simp only [String.toList_append, List.append_assoc, hcolon, List.singleton_append] at hlist
  have htake : ∀ (s rest : List Char), ':' ∉ s → (s ++ ':' :: rest).takeWhile (· != ':') = s := by
    intro s rest hs
    have hall : ∀ c ∈ s, (c != ':') = true := by
      intro c hc
      rw [bne_iff_ne]
      rintro rfl
      exact hs hc
    rw [List.takeWhile_append_of_pos hall]
    simp
  have hfirst := congrArg (List.takeWhile (· != ':')) hlist
  rw [htake _ _ hp, htake _ _ hp'] at hfirst
  have hproject : p = p' := String.toList_inj.mp hfirst
  subst hproject
  rw [List.append_cancel_left_eq, List.cons.injEq] at hlist
  exact ⟨rfl, String.toList_inj.mp hlist.2⟩

def bindingKey (projectId locationId : String) : String :=
  makeKey bindingService (projectId ++ ":" ++ locationId)

def preferredKey (projectId : String) : String := makeKey preferredService projectId

theorem bindingKey_inj {p p' l l' : String} (hp : ':' ∉ p.toList) (hp' : ':' ∉ p'.toList) :
    bindingKey p l = bindingKey p' l' ↔ p = p' ∧ l = l' := by
  constructor
  · intro h
    exact account_inj hp hp' (makeKey_inj (by decide) (by decide) h).2
  · rintro ⟨rfl, rfl⟩
    rfl

theorem preferredKey_inj {p p' : String} : preferredKey p = preferredKey p' ↔ p = p' := by
  constructor
  · intro h
    exact (makeKey_inj (by decide) (by decide) h).2
  · rintro rfl
    rfl

theorem bindingKey_ne_preferredKey (p l p' : String) : bindingKey p l ≠ preferredKey p' := by
  intro h
  have := (makeKey_inj (by decide) (by decide) h).1
  revert this
  decide

end LocationBindingStore

open LocationBindingStore

/-- The secret of a binding. -/
def BoundLocation.stored (env : SecretEnv φ) (account : String) (bound : BoundLocation) :
    Option StoredSecret :=
  match env.json.dump 0 (bindingJson bound.binding) with
  | .ok text => some
    ⟨⟨bindingService, account, bound.preview, bound.createdAt, bound.updatedAt⟩, String.ofList text⟩
  | .error _ => none

/-- Files that hold the table. -/
structure SecretFiles.Binds (env : SecretEnv φ) (files : SecretFiles) (table : BindingTable)
    (held : String → Option StoredSecret) : Prop where
  holds : files.Holds env held
  bindings : ∀ p l, ':' ∉ p.toList →
    held (bindingKey p l) = (table.bindings p l).bind (BoundLocation.stored env (p ++ ":" ++ l))
  preferred : ∀ p, (held (preferredKey p)).map (·.secret) = table.preferred p
  fits : ∀ p l bound, table.bindings p l = some bound → bound.Fits

/-- A call over texts and times that files can hold, of projects without a colon in their id. -/
def BindingCall.Fits : BindingCall → Prop
  | .bind projectId locationId binding safePreview now => ':' ∉ projectId.toList ∧ Text projectId ∧
    Text locationId ∧ Text binding.provider ∧ (∀ entry ∈ binding.values, Text entry.1 ∧ Text entry.2) ∧
    Text safePreview ∧ FitsSigned 64 now
  | .unbind projectId _ => ':' ∉ projectId.toList
  | .setPreferred projectId locationId now => Text projectId ∧ Text locationId ∧ FitsSigned 64 now
  | .clearPreferred _ => True

section
variable {env : SecretEnv φ} {files files' : SecretFiles} {table : BindingTable}
  {held : String → Option StoredSecret}

/-- The secret of a binding that fits, and what it reads back as. -/
theorem BoundLocation.Fits.stored (henv : env.Lawful) {bound : BoundLocation} (h : bound.Fits)
    (account : String) : ∃ secret, bound.stored env account =
      some ⟨⟨bindingService, account, bound.preview, bound.createdAt, bound.updatedAt⟩, secret⟩ ∧
      env.json.dump 0 (bindingJson bound.binding) = .ok secret.toList ∧ Text secret ∧
      readBinding env.json secret.toList = .ok bound.binding := by
  obtain ⟨text, hdump, hvalid, hread⟩ := readBinding_dump henv h.version h.provider h.values
  refine ⟨String.ofList text, ?_, by simpa using hdump, by simpa [Text] using hvalid,
    by simpa using hread⟩
  rw [BoundLocation.stored, hdump]

theorem SecretFiles.Binds.creationTime (henv : env.Lawful) (h : files.Binds env table held)
    {p l : String} (hp : ':' ∉ p.toList) (now : Int) : creationTime (held (bindingKey p l)) now =
      ((table.bindings p l).map (·.createdAt)).getD now := by
  rw [h.bindings p l hp, LocationBindingStore.creationTime]
  cases hb : table.bindings p l with
  | none => rfl
  | some bound =>
    obtain ⟨secret, hs, -⟩ := (h.fits p l bound hb).stored henv (p ++ ":" ++ l)
    simp [hs]

/-! ## Calls -/

theorem SecretFiles.Binds.putBinding (h : files.Binds env table held) {p l : String}
    (hp : ':' ∉ p.toList) (bound : Option BoundLocation) {stored : Option StoredSecret}
    (hstored : stored = bound.bind (BoundLocation.stored env (p ++ ":" ++ l)))
    (hfits : ∀ b, bound = some b → b.Fits)
    (hholds : files'.Holds env fun k => if k = bindingKey p l then stored else held k) :
    files'.Binds env { table with
      bindings := fun p' l' => if p' = p ∧ l' = l then bound else table.bindings p' l' }
      fun k => if k = bindingKey p l then stored else held k := by
  refine ⟨hholds, fun p' l' hp' => ?_, fun p' => ?_, fun p' l' b hb => ?_⟩
  · by_cases he : p' = p ∧ l' = l
    · obtain ⟨rfl, rfl⟩ := he
      simpa using hstored
    · simp only [bindingKey_inj hp' hp, he, if_false]
      exact h.bindings p' l' hp'
  · rw [if_neg (bindingKey_ne_preferredKey p l p').symm]
    exact h.preferred p'
  · dsimp only at hb
    split at hb
    · exact hfits b hb
    · exact h.fits p' l' b hb

theorem SecretFiles.Binds.putPreferred (h : files.Binds env table held) {p : String}
    {stored : Option StoredSecret}
    (hholds : files'.Holds env fun k => if k = preferredKey p then stored else held k) :
    files'.Binds env { table with
      preferred := fun p' => if p' = p then stored.map (·.secret) else table.preferred p' }
      fun k => if k = preferredKey p then stored else held k := by
  refine ⟨hholds, fun p' l' hp' => ?_, fun p' => ?_, h.fits⟩
  · rw [if_neg (bindingKey_ne_preferredKey p' l' p)]
    exact h.bindings p' l' hp'
  · by_cases he : p' = p
    · subst he
      simp
    · simp only [preferredKey_inj, he, if_false]
      exact h.preferred p'

theorem bindingAccount_ok {p l : String} (hp : p ≠ "") (hl : l ≠ "") :
    bindingAccount p l = .ok (p ++ ":" ++ l) := by
  simp [bindingAccount, String.isEmpty_iff, hp, hl]

theorem bindingAccount_error {p l : String} (h : ¬(p ≠ "" ∧ l ≠ "")) :
    bindingAccount p l = .error (.exn (.invalidArgument "binding ids required")) := by
  rw [not_and_or, not_ne_iff, not_ne_iff] at h
  rw [bindingAccount, if_pos]
  simpa [String.isEmpty_iff] using h

theorem account_text {p l : String} (hp : Text p) (hl : Text l) : Text (p ++ ":" ++ l) := by
  have hcolon : Text ":" := JsonLibrary.text_of_ascii (by decide)
  unfold Text at *
  simp only [String.toList_append]
  exact .append (.append hp hcolon) hl

theorem bindingService_text : Text bindingService := JsonLibrary.text_of_ascii (by decide)

theorem preferredService_text : Text preferredService := JsonLibrary.text_of_ascii (by decide)

/-- An accepted call succeeds and changes the table. -/
theorem BindingCall.run_accepted (henv : env.Lawful) (h : files.Binds env table held)
    {call : BindingCall} (hfits : call.Fits) (hcall : call.Accepted) :
    ∃ files' held', call.run env files = .ok () files' ∧ files'.Binds env (call.change table) held' := by
  cases call with
  | bind p l binding preview now =>
    obtain ⟨hcolon, hp, hl, hprovider, hvalues, hpreview, hnow⟩ := hfits
    obtain ⟨hversion, hname, hpid, hlid⟩ := hcall
    let createdAt := ((table.bindings p l).map (·.createdAt)).getD now
    have hcreated : FitsSigned 64 createdAt := by
      simp only [createdAt]
      cases hb : table.bindings p l with
      | none => exact hnow
      | some bound => exact (h.fits p l bound hb).createdAt
    have hbound : BoundLocation.Fits ⟨binding, preview, createdAt, now⟩ :=
      ⟨hversion, ⟨hname, hprovider⟩, hvalues, hpreview, hcreated, hnow⟩
    obtain ⟨secret, hstored, hdump, hsecret, -⟩ := hbound.stored henv (p ++ ":" ++ l)
    have hrecord : StoredSecret.Fits
        ⟨⟨bindingService, p ++ ":" ++ l, preview, createdAt, now⟩, secret⟩ :=
      ⟨bindingService_text, account_text hp hl, hpreview, hcreated, hnow, hsecret⟩
    obtain ⟨files', hset, hholds⟩ := h.holds.set henv hrecord
    refine ⟨files', _, ?_, h.putBinding hcolon (some ⟨binding, preview, createdAt, now⟩)
      hstored.symm (fun b hb => by cases hb; exact hbound) hholds⟩
    have hknown : ¬(binding.version ≠ 1 ∨ binding.provider.isEmpty = true) := by
      simp [hversion, String.isEmpty_iff, hname]
    have hget := h.holds.get bindingService (p ++ ":" ++ l)
    have hdumped : secretJson (env.json.dump 0 (bindingJson binding)) = .ok secret.toList := by
      rw [hdump]
      rfl
    simp only [BindingCall.run, LocationBindingStore.bind, if_neg hknown, bindingAccount_ok hpid hlid,
      hdumped]
    rw [bind_eq_of_ok (fromExcept_ok _ _), bind_eq_of_ok hget, bind_eq_of_ok (fromExcept_ok _ _),
      String.ofList_toList]
    have htime := h.creationTime henv (l := l) hcolon now
    rw [bindingKey] at htime
    rw [htime]
    exact hset
  | unbind p l =>
    obtain ⟨hpid, hlid⟩ := hcall
    obtain ⟨files', hremove, hholds⟩ := h.holds.remove henv bindingService (p ++ ":" ++ l)
    refine ⟨files', _, ?_, h.putBinding hfits none rfl (by simp) hholds⟩
    simp only [BindingCall.run, LocationBindingStore.unbind, bindingAccount_ok hpid hlid]
    rw [bind_eq_of_ok (fromExcept_ok _ _)]
    exact hremove
  | setPreferred p l now =>
    obtain ⟨hp, hl, hnow⟩ := hfits
    obtain ⟨hpid, hlid⟩ := hcall
    let createdAt := creationTime (held (preferredKey p)) now
    have hcreated : FitsSigned 64 createdAt := by
      simp only [createdAt, LocationBindingStore.creationTime]
      cases hs : held (preferredKey p) with
      | none => exact hnow
      | some stored => exact (h.holds.fits _ stored hs).1.createdAt
    have hrecord : StoredSecret.Fits ⟨⟨preferredService, p, l, createdAt, now⟩, l⟩ :=
      ⟨preferredService_text, hp, hl, hcreated, hnow, hl⟩
    obtain ⟨files', hset, hholds⟩ := h.holds.set henv hrecord
    refine ⟨files', _, ?_, h.putPreferred hholds⟩
    have hids : (p.isEmpty || l.isEmpty) = false := by
      simp [hpid, hlid]
    simp only [BindingCall.run, LocationBindingStore.setPreferred, hids]
    rw [if_neg (by decide)]
    exact (bind_eq_of_ok (h.holds.get preferredService p)).trans hset
  | clearPreferred p =>
    obtain ⟨files', hremove, hholds⟩ := h.holds.remove henv preferredService p
    exact ⟨files', _, hremove, h.putPreferred hholds⟩

/-- A rejected call throws and leaves the files as they are. -/
theorem BindingCall.run_rejected (env : SecretEnv φ) {call : BindingCall} (hcall : ¬call.Accepted)
    (files : SecretFiles) :
    ∃ e, call.run env files = .error e files := by
  cases call with
  | bind p l binding preview now =>
    simp only [BindingCall.run, LocationBindingStore.bind]
    split
    · exact ⟨_, rfl⟩
    · next hknown =>
      have hids : ¬(p ≠ "" ∧ l ≠ "") := by
        rintro hids
        simp only [not_or, not_not, String.isEmpty_iff] at hknown
        exact hcall ⟨hknown.1, hknown.2, hids⟩
      rw [bindingAccount_error hids]
      exact ⟨_, rfl⟩
  | unbind p l =>
    simp only [BindingCall.run, LocationBindingStore.unbind]
    rw [bindingAccount_error hcall]
    exact ⟨_, rfl⟩
  | setPreferred p l now =>
    have hids : (p.isEmpty || l.isEmpty) = true := by
      rw [BindingCall.Accepted, not_and_or, not_ne_iff, not_ne_iff] at hcall
      simpa [String.isEmpty_iff] using hcall
    simp only [BindingCall.run, LocationBindingStore.setPreferred, hids, if_true]
    exact ⟨_, rfl⟩
  | clearPreferred p => exact absurd trivial hcall

theorem BindingCall.after_binds (henv : env.Lawful) (h : files.Binds env table held)
    {call : BindingCall} (hfits : call.Fits) :
    ∃ held', (call.after env files).Binds env (BindingCall.apply table call) held' := by
  unfold BindingCall.after BindingCall.apply
  by_cases hcall : call.Accepted
  · obtain ⟨files', held', hrun, hbinds⟩ := call.run_accepted henv h hfits hcall
    rw [hrun, if_pos hcall]
    exact ⟨held', hbinds⟩
  · obtain ⟨e, hrun⟩ := BindingCall.run_rejected env hcall files
    rw [hrun, if_neg hcall]
    exact ⟨held, h⟩

theorem BindingCall.foldl_binds (henv : env.Lawful) {calls : List BindingCall}
    (hcalls : ∀ call ∈ calls, call.Fits) (h : files.Binds env table held) :
    ∃ held', (calls.foldl (BindingCall.after env) files).Binds env
      (calls.foldl BindingCall.apply table) held' := by
  induction calls generalizing files table held with
  | nil => exact ⟨held, h⟩
  | cons call calls ih =>
    obtain ⟨held1, h1⟩ := call.after_binds henv h (hcalls call List.mem_cons_self)
    exact ih (fun c hc => hcalls c (List.mem_cons_of_mem _ hc)) h1

theorem SecretFiles.Binds.empty (env : SecretEnv φ) :
    SecretFiles.Binds env {} BindingTable.empty fun _ => none :=
  ⟨.empty env, fun _ _ _ => rfl, fun _ => rfl, by simp [BindingTable.empty]⟩

/-- After any calls on an empty store, rejected ones among them, a lookup answers the latest binding of
the project and the location that was not removed, with its preview, and the preferred location of a
project is the latest that was not cleared. -/
theorem locationBindings_table (henv : env.Lawful) {calls : List BindingCall}
    (hcalls : ∀ call ∈ calls, call.Fits) :
    (∀ p l, ':' ∉ p.toList → p ≠ "" → l ≠ "" →
      LocationBindingStore.get env p l (calls.foldl (BindingCall.after env) {}) =
        .ok (((calls.foldl BindingCall.apply .empty).bindings p l).map (·.binding))
          (calls.foldl (BindingCall.after env) {}) ∧
      LocationBindingStore.preview env p l (calls.foldl (BindingCall.after env) {}) =
        .ok (((calls.foldl BindingCall.apply .empty).bindings p l).map (·.preview))
          (calls.foldl (BindingCall.after env) {})) ∧
    ∀ p, LocationBindingStore.preferred env p (calls.foldl (BindingCall.after env) {}) =
      .ok ((calls.foldl BindingCall.apply .empty).preferred p)
        (calls.foldl (BindingCall.after env) {}) := by
  obtain ⟨held, h⟩ := BindingCall.foldl_binds henv hcalls (.empty env)
  generalize calls.foldl (BindingCall.after env) {} = files at h ⊢
  generalize calls.foldl BindingCall.apply .empty = table at h ⊢
  refine ⟨fun p l hp hpid hlid => ?_, fun p => ?_⟩
  · have hget := h.holds.get bindingService (p ++ ":" ++ l)
    have hheld := h.bindings p l hp
    rw [bindingKey] at hheld
    unfold LocationBindingStore.get LocationBindingStore.preview
    rw [bindingAccount_ok hpid hlid, bind_eq_of_ok (fromExcept_ok _ _), bind_eq_of_ok hget,
      bind_eq_of_ok (fromExcept_ok _ _), bind_eq_of_ok hget, hheld]
    cases hb : table.bindings p l with
    | none => exact ⟨rfl, rfl⟩
    | some bound =>
      obtain ⟨secret, hs, -, -, hread⟩ := (h.fits p l bound hb).stored henv (p ++ ":" ++ l)
      simp only [Option.bind_some, hs, hread]
      exact ⟨rfl, rfl⟩
  · unfold LocationBindingStore.preferred
    rw [bind_eq_of_ok (h.holds.get preferredService p), ← h.preferred p]
    rfl

end

/-- A binding that is replaced, one that is rejected, and a preferred location. -/
def reboundLocation : List BindingCall :=
  let values := [("path", "/mnt/old")]
  let binding : LocationBinding := ⟨1, "local_directory", values, List.pairwise_singleton _ _⟩
  [.bind "p" "l" binding "old" 1, .setPreferred "p" "l" 2,
    .bind "p" "l" ⟨1, "local_directory", [("path", "/mnt/new")], List.pairwise_singleton _ _⟩ "new" 3,
    .bind "p" "l" { binding with version := 2 } "rejected" 4, .unbind "p" ""]

theorem reboundLocation_fits : ∀ call ∈ reboundLocation, call.Fits := by
  have htext : ∀ s ∈ ["p", "l", "local_directory", "path", "/mnt/old", "/mnt/new", "old", "new",
      "rejected"], Text s := by
    intro s hs
    refine JsonLibrary.text_of_ascii ?_
    revert s
    decide
  have hcolon : ':' ∉ "p".toList := by decide
  simp only [reboundLocation, List.mem_cons, List.not_mem_nil, or_false, forall_eq_or_imp, forall_eq,
    BindingCall.Fits]
  have hbind : ∀ path preview : String, Text path → Text preview → ∀ now : Int, FitsSigned 64 now →
      ':' ∉ "p".toList ∧ Text "p" ∧ Text "l" ∧ Text "local_directory" ∧
        (Text "path" ∧ Text path) ∧ Text preview ∧ FitsSigned 64 now := by
    intro path preview hpath hpreview now hnow
    exact ⟨hcolon, htext _ (by simp), htext _ (by simp), htext _ (by simp), ⟨htext _ (by simp), hpath⟩,
      hpreview, hnow⟩
  exact ⟨hbind _ _ (htext _ (by simp)) (htext _ (by simp)) _ (by decide),
    ⟨htext _ (by simp), htext _ (by simp), by decide⟩,
    hbind _ _ (htext _ (by simp)) (htext _ (by simp)) _ (by decide),
    hbind _ _ (htext _ (by simp)) (htext _ (by simp)) _ (by decide), hcolon⟩

theorem reboundLocation_table :
    (∀ p l, ':' ∉ p.toList → p ≠ "" → l ≠ "" →
      LocationBindingStore.get plainSecrets p l
          (reboundLocation.foldl (BindingCall.after plainSecrets) {}) =
        .ok (((reboundLocation.foldl BindingCall.apply .empty).bindings p l).map (·.binding))
          (reboundLocation.foldl (BindingCall.after plainSecrets) {}) ∧
      LocationBindingStore.preview plainSecrets p l
          (reboundLocation.foldl (BindingCall.after plainSecrets) {}) =
        .ok (((reboundLocation.foldl BindingCall.apply .empty).bindings p l).map (·.preview))
          (reboundLocation.foldl (BindingCall.after plainSecrets) {})) ∧
    ∀ p, LocationBindingStore.preferred plainSecrets p
        (reboundLocation.foldl (BindingCall.after plainSecrets) {}) =
      .ok ((reboundLocation.foldl BindingCall.apply .empty).preferred p)
        (reboundLocation.foldl (BindingCall.after plainSecrets) {}) :=
  locationBindings_table plainSecrets_lawful reboundLocation_fits

end HolderCore
