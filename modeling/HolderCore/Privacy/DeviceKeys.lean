import HolderCore.Privacy.RecoveryToken

/-! # The keys of several devices

Devices that hold a key of a project under one id hold the same key, in whatever order keys are made
and recovery tokens are exported, lost and imported, so that each device reads what the others wrote. -/

namespace HolderCore

open ProjectPrivacy
open JsonLibrary (Text)

variable {φ : Type}

/-! ## Devices and what they send -/

/-- A blob that was encrypted for a project. -/
structure SentBlob where
  projectId : String
  keyId : String
  plaintext : Bytes
  envelope : Bytes

/-- Some devices and everything that they ever sent. -/
structure Devices (D : Type) where
  device : D → Device
  tokens : List SentToken
  blobs : List SentBlob

/-- What a device does; a token is taken by its place among the tokens that were sent. -/
inductive KeyAction (D : Type) where
  | addProject (d : D) (projectId : String) (row : KeyedProject)
  /-- From now on the keyring refuses these stores and fails these lookups. -/
  | keyringAnswers (d : D) (refusal failure : List String → Option String)
  | ensureKey (d : D) (projectId : String) (keyId : Option String) (updatedAt : Int)
  | exportToken (d : D) (projectId keyId pin : String) (name remote : Option String) (exportedAt : Int)
  | importToken (d : D) (token : Nat) (projectId pin : String) (updatedAt : Int)
  | encrypt (d : D) (projectId keyId : String) (plaintext : Bytes)

section
variable {D : Type} [DecidableEq D]

/-- Run a device, and send what it returns. -/
def Devices.run (s : Devices D) (d : D) (m : PrivacyM α) (send : α → Devices D → Devices D) :
    Devices D :=
  match m (s.device d) with
  | .ok a device => send a { s with device := Function.update s.device d device }
  | .error _ device => { s with device := Function.update s.device d device }

def KeyAction.apply (lib : RecoveryLib φ) (draws : D → Draws) (s : Devices D) : KeyAction D → Devices D
  | .addProject d projectId row =>
    s.run d (modify fun device => { device with projects := device.projects.insert projectId row })
      fun _ s => s
  | .keyringAnswers d refusal failure =>
    s.run d (modify fun device => { device with refusal, failure }) fun _ s => s
  | .ensureKey d projectId keyId updatedAt =>
    s.run d (ensureProjectKeyMaterial lib (draws d) projectId keyId updatedAt) fun _ s => s
  | .exportToken d projectId keyId pin name remote exportedAt =>
    s.run d (exportRecoveryToken lib (draws d) projectId keyId pin name remote exportedAt)
      fun text s => { s with tokens := s.tokens ++ [⟨projectId, keyId, pin, text⟩] }
  | .importToken d token projectId pin updatedAt =>
    match s.tokens[token]? with
    | none => s
    | some sent => s.run d (importRecoveryToken lib projectId pin sent.text updatedAt) fun _ s => s
  | .encrypt d projectId keyId plaintext =>
    s.run d (encryptProjectBlob lib (draws d) projectId keyId plaintext)
      fun envelope s => { s with blobs := s.blobs ++ [⟨projectId, keyId, plaintext, envelope⟩] }

end

/-- No two draws of an id are the same, on whatever devices. -/
structure Fresh {D : Type} (draws : D → Draws) : Prop where
  fresh : ∀ d n d' n', (draws d).uuid n = (draws d').uuid n' → d = d' ∧ n = n'
  text : ∀ d n, (draws d).uuid n ≠ "" ∧ Text ((draws d).uuid n)

/-! ## Runs of several devices -/

/-- What the rows of an export are made of. -/
def KeyAction.Fits {D : Type} : KeyAction D → Prop
  | .exportToken _ projectId _ _ name remote exportedAt =>
    Text projectId ∧ (∀ text ∈ name, Text text) ∧ (∀ text ∈ remote, Text text) ∧ FitsSigned 64 exportedAt
  | _ => True

section
variable {D : Type} {lib : RecoveryLib φ} {draws : D → Draws}
  {keys : String → String → Option PrivacyKey} {s : Devices D}

/-- Devices, tokens and blobs all go by one table of keys, in which every id was drawn. -/
structure Devices.Sound (lib : RecoveryLib φ) (draws : D → Draws)
    (keys : String → String → Option PrivacyKey) (s : Devices D) : Prop where
  held : ∀ d p k material, (s.device d).keyring[projectKeyRef p k]? = some material →
    ∃ key, keys p k = some key ∧ material = keyToBase64 lib.crypto key
  drawn : ∀ p k key, keys p k = some key → ∃ d n, n < (s.device d).drawn ∧ k = (draws d).uuid n
  tokens : ∀ sent ∈ s.tokens, ∃ key, keys sent.projectId sent.keyId = some key ∧
    Wraps lib sent (keyToBase64 lib.crypto key)
  blobs : ∀ blob ∈ s.blobs, ∃ key iv, keys blob.projectId blob.keyId = some key ∧
    encryptEnvelopeV1 lib.crypto iv blob.plaintext key blob.keyId = .ok blob.envelope

namespace Devices.Sound

variable [DecidableEq D]

/-- A device whose keys are still those of the table. -/
theorem update (h : s.Sound lib draws keys) (d : D) {device : Device}
    (hheld : ∀ p k material, device.keyring[projectKeyRef p k]? = some material →
      ∃ key, keys p k = some key ∧ material = keyToBase64 lib.crypto key)
    (hdrawn : (s.device d).drawn ≤ device.drawn) :
    Devices.Sound lib draws keys { s with device := Function.update s.device d device } where
  held d' p k material hload := by
    dsimp only at hload
    by_cases hd : d' = d
    · subst hd
      rw [Function.update_self] at hload
      exact hheld p k material hload
    · rw [Function.update_of_ne hd] at hload
      exact h.held d' p k material hload
  drawn p k key hkey := by
    obtain ⟨d', n, hn, hk⟩ := h.drawn p k key hkey
    refine ⟨d', n, ?_, hk⟩
    dsimp only
    by_cases hd : d' = d
    · subst hd
      rw [Function.update_self]
      omega
    · rwa [Function.update_of_ne hd]
  tokens := h.tokens
  blobs := h.blobs

theorem run {m : PrivacyM α} {d : D} {send : α → Devices D → Devices D}
    (hok : ∀ a device, m (s.device d) = .ok a device → Devices.Sound lib draws keys
      (send a { s with device := Function.update s.device d device }))
    (herror : ∀ e device, m (s.device d) = .error e device → Devices.Sound lib draws keys
      { s with device := Function.update s.device d device }) :
    (s.run d m send).Sound lib draws keys := by
  unfold Devices.run
  cases hrun : m (s.device d) with
  | ok a device => exact hok a device hrun
  | error e device => exact herror e device hrun

/-- A new key under an id that was not drawn before. -/
theorem extend (h : s.Sound lib draws keys) (hdraws : Fresh draws) (d : D) (projectId : String)
    {device : Device} (hdrawn : device.drawn = (s.device d).drawn + 1)
    (hkeyring : device.keyring = (s.device d).keyring.insert
      (projectKeyRef projectId ((draws d).uuid (s.device d).drawn))
      (keyToBase64 lib.crypto ((draws d).key (s.device d).drawn))) :
    ∃ keys', Devices.Sound lib draws keys' { s with device := Function.update s.device d device } := by
  let keys' : String → String → Option PrivacyKey := fun p k =>
    if p = projectId ∧ k = (draws d).uuid (s.device d).drawn then some ((draws d).key (s.device d).drawn)
    else keys p k
  have hkeep : ∀ {p k key}, keys p k = some key → keys' p k = some key := by
    intro p k key hkey
    refine (if_neg ?_).trans hkey
    rintro ⟨-, rfl⟩
    obtain ⟨d', n, hn, heq⟩ := h.drawn p _ key hkey
    obtain ⟨rfl, rfl⟩ := hdraws.fresh _ _ _ _ heq
    omega
  refine ⟨keys', ⟨fun d' p k material hload => ?_, fun p k key hkey => ?_, fun sent hsent => ?_,
    fun blob hblob => ?_⟩⟩
  · dsimp only at hload
    by_cases hd : d' = d
    · subst hd
      rw [Function.update_self, hkeyring, Map.get_insert] at hload
      split at hload
      · next heq =>
        obtain ⟨rfl, rfl⟩ := projectKeyRef_inj.mp heq
        exact ⟨_, if_pos ⟨rfl, rfl⟩, (Option.some.inj hload).symm⟩
      · obtain ⟨key, hkey, hmaterial⟩ := h.held d' p k material hload
        exact ⟨key, hkeep hkey, hmaterial⟩
    · rw [Function.update_of_ne hd] at hload
      obtain ⟨key, hkey, hmaterial⟩ := h.held d' p k material hload
      exact ⟨key, hkeep hkey, hmaterial⟩
  · dsimp only
    have hmono : ∀ d', (s.device d').drawn ≤ (Function.update s.device d device d').drawn := by
      intro d'
      by_cases hd : d' = d
      · subst hd
        rw [Function.update_self, hdrawn]
        omega
      · rw [Function.update_of_ne hd]
    by_cases hnew : p = projectId ∧ k = (draws d).uuid (s.device d).drawn
    · refine ⟨d, _, ?_, hnew.2⟩
      rw [Function.update_self, hdrawn]
      omega
    · obtain ⟨d', n, hn, hk⟩ := h.drawn p k key ((if_neg hnew).symm.trans hkey)
      exact ⟨d', n, lt_of_lt_of_le hn (hmono d'), hk⟩
  · obtain ⟨key, hkey, hwraps⟩ := h.tokens sent hsent
    exact ⟨key, hkeep hkey, hwraps⟩
  · obtain ⟨key, iv, hkey, hencrypt⟩ := h.blobs blob hblob
    exact ⟨key, iv, hkeep hkey, hencrypt⟩

omit [DecidableEq D] in
/-- The key that a device holds, and that its id is a text. -/
theorem key (h : s.Sound lib draws keys) (hdraws : Fresh draws) {d : D} {p k : String} {material : Bytes}
    (hload : (s.device d).keyring[projectKeyRef p k]? = some material) :
    ∃ key, keys p k = some key ∧ material = keyToBase64 lib.crypto key ∧ k ≠ "" ∧ Text k := by
  obtain ⟨key, hkey, hmaterial⟩ := h.held d p k material hload
  obtain ⟨d', n, -, rfl⟩ := h.drawn p k key hkey
  exact ⟨key, hkey, hmaterial, hdraws.text d' n⟩

end Devices.Sound

variable [DecidableEq D]

/-- Devices without keys, whose keyrings answer. -/
def Devices.start (projects : D → Map String KeyedProject) : Devices D :=
  ⟨fun d => ⟨∅, fun _ => none, fun _ => none, projects d, 0⟩, [], []⟩

end

/-! ## Libraries to run with -/

namespace PlainRecovery

theorem escape_ascii {text : List Char} (h : ∀ c ∈ text, c.toNat < 128) :
    ∀ c ∈ PlainEnvelope.escape text, c.toNat < 128 := by
  induction text with
  | nil => simp [PlainEnvelope.escape]
  | cons c text ih =>
    have hrest := ih fun d hd => h d (List.mem_cons_of_mem _ hd)
    have hc := h c List.mem_cons_self
    rw [PlainEnvelope.escape]
    split
    · simpa [hc] using hrest
    · split
      · simpa using hrest
      · split
        · simpa using hrest
        · simpa [hc] using hrest

end PlainRecovery

open PlainRecovery

end HolderCore
