import Xlpod.Library.Relaunches
import Xlpod.PemFile

/-!
# The local CA across launches

`ensure` loads the CA of an earlier launch or makes a new one, and issues the
server certificate. It may be killed anywhere, and any file operation may fail
and leave part of a file. A launch that returns has issued its certificate with
the key that is on the disk.

`Path::exists` says no when it cannot ask for a file, and a launch that misses
the CA so writes a new one over it. Where no file is missed, the certificate is
written before the key, so a key file, even a torn one, stands next to the
certificate of its own key, and neither is written again; a key file that was
torn stops every later launch.
-/
namespace Xlpod.CaLaunches
open Xlpod.ByteEncodings Xlpod.GuardedRuns Xlpod.PemFile Xlpod.Programs Xlpod.Relaunches

/-! ## Outside the launcher -/

abbrev Text := List Char

/-- What `rcgen` and `sha1` do. A certificate depends on what is drawn with it, the
time included; a key is read back from its PEM text, and from the start of one no other key. -/
structure Crypto where
  Key : Type
  keyPem : Key → Text
  fromPem : Text → Option Key
  rootPem : Key → ℕ → Text
  /-- The certificate of the second key that the first one signs. -/
  serverPem : Key → Key → ℕ → Text
  sha1 : Bytes → Bytes
  fromPem_keyPem : ∀ k, fromPem (keyPem k) = some k
  fromPem_start : ∀ k k' part, part <+: keyPem k → fromPem part = some k' → k' = k

inductive CaFile
  | caCert
  | caKey
  | serverCert
  | serverKey
  | thumbprint
deriving DecidableEq

/-- The files of the CA directory, and the user's root store. -/
structure Disk where
  files : CaFile → Option Text
  roots : List Bytes

def fresh : Disk := ⟨fun _ => none, []⟩

def Disk.put (s : Disk) (file : CaFile) (text : Text) : Disk :=
  { s with files := Function.update s.files file (some text) }

inductive Op
  | createDirAll
  | exists (file : CaFile)
  | readToString (file : CaFile)
  | write (file : CaFile) (text : Text)
  | generate
  | install (der : Bytes)
  | selfSigned
  | issue

/-- An installation that fails has a message. -/
@[reducible] def Op.Reply (X : Crypto) : Op → Type
  | .createDirAll => Bool
  | .exists _ => Bool
  | .readToString _ => Option Text
  | .write _ _ => Bool
  | .generate => Option (X.Key × ℕ)
  | .install _ => Option String
  | .selfSigned => Bool
  | .issue => Option (X.Key × ℕ)

@[reducible] def api (X : Crypto) : Interface := ⟨Op, Op.Reply X⟩

/-- How a write ends. -/
inductive Written
  | whole
  | unopened
  | torn (kept : ℕ)

structure Environment (X : Crypto) where
  works : Bool
  written : Written
  drawn : Option (X.Key × ℕ)
  refusal : Option String

variable {X : Crypto}

def exec (s : Disk) (env : Environment X) : (op : Op) → Option (op.Reply X × Disk)
  | .createDirAll => some (env.works, s)
  -- A file that cannot be asked for does not exist.
  | .exists file => some (env.works && (s.files file).isSome, s)
  | .readToString file => some (if env.works then s.files file else none, s)
  | .write file text =>
      match env.written with
      | .whole => some (true, s.put file text)
      | .unopened => some (false, s)
      | .torn kept => some (false, s.put file (text.take kept))
  | .generate => some (env.drawn, s)
  | .install der =>
      match env.refusal with
      | none => some (none, { s with roots := der :: s.roots })
      | some message => some (some message, s)
  | .selfSigned => some (env.works, s)
  | .issue => some (env.drawn, s)

/-! ## `ensure` -/

inductive CaError
  | io
  | rcgen
  | certutilFailed (message : String)

abbrev Launch (X : Crypto) := ExceptT CaError (Program (api X))

def call (op : Op) : Launch X (op.Reply X) := liftM (Program.call (I := api X) op .done)

def createDirAll : Launch X Unit := do
  if !(← call .createDirAll) then throw .io

def readToString (file : CaFile) : Launch X Text := do
  match ← call (.readToString file) with
  | some text => return text
  | none => throw .io

def write (file : CaFile) (text : Text) : Launch X Unit := do
  if !(← call (.write file text)) then throw .io

def installUserRoot (der : Bytes) : Launch X (Option String) := call (.install der)

def generateRootCa : Launch X (Text × Text × X.Key) := do
  match ← call .generate with
  | some (kp, draw) => return (X.rootPem kp draw, X.keyPem kp, kp)
  | none => throw .rcgen

def issueServerCert (caKp : X.Key) : Launch X (Text × Text) := do
  match ← call .issue with
  | some (serverKp, draw) => return (X.serverPem caKp serverKp draw, X.keyPem serverKp)
  | none => throw .rcgen

def derOf (pem : Text) : Launch X Bytes :=
  match pemToDer pem with
  | .ok der => return der
  | .error _ => throw .io

def sha1Hex (X : Crypto) (der : Bytes) : Text :=
  (X.sha1 der).flatMap fun b => [hexUpper (b.toNat / 16), hexUpper (b.toNat % 16)]
where
  hexUpper (n : ℕ) : Char := (Nat.digitChar n).toUpper

def loadCa : Launch X (X.Key × Bytes) := do
  let certPem ← readToString .caCert
  let keyPem ← readToString .caKey
  match X.fromPem keyPem with
  | none => throw .rcgen
  | some kp => return (kp, ← derOf certPem)

def makeCa : Launch X (X.Key × Bytes) := do
  let (certPem, keyPem, kp) ← generateRootCa
  write .caCert certPem
  write .caKey keyPem
  let der ← derOf certPem
  write .thumbprint (sha1Hex X der)
  match ← installUserRoot der with
  | some message => throw (.certutilFailed message)
  | none => return (kp, der)

/-- The certificate of the CA is signed once more, to sign with it; its file stays. -/
def issueAndWrite (kp : X.Key) : Launch X Unit := do
  if !(← call .selfSigned) then throw .rcgen
  let (certPem, keyPem) ← issueServerCert kp
  write .serverCert certPem
  write .serverKey keyPem

def caExists : Launch X Bool := do
  if ← call (.exists .caCert) then call (.exists .caKey) else return false

def loadOrMakeCa : Launch X (X.Key × Bytes) := do
  if ← caExists then loadCa else makeCa

def ensure (X : Crypto) : Launch X Unit := do
  createDirAll
  let (kp, der) ← loadOrMakeCa
  let _ ← installUserRoot der
  issueAndWrite kp

/-! ## What a launch leaves -/

/-- A key file never stands without a certificate. -/
def Anchored (s : Disk) : Prop := (s.files .caKey).isSome = true → (s.files .caCert).isSome = true

/-- Next to a key file stands the whole certificate of its key, and only that
certificate is ever trusted. -/
structure Paired (X : Crypto) (s : Disk) : Prop where
  certified : ∀ text, s.files .caKey = some text →
    ∃ k draw, s.files .caCert = some (X.rootPem k draw) ∧ text <+: X.keyPem k
  trusted : ∀ der ∈ s.roots, (s.files .caKey).isSome ∧
    ∃ text, s.files .caCert = some text ∧ pemToDer text = .ok der

/-- A key file stays as it is, with its certificate. -/
structure Kept (X : Crypto) (s s' : Disk) : Prop where
  paired : Paired X s → Paired X s'
  key : ∀ text, s.files .caKey = some text →
    s'.files .caKey = some text ∧ s'.files .caCert = s.files .caCert

/-- What a step does to the disk; a careful one keeps the CA. -/
structure Moves (X : Crypto) (careful : Bool) (s s' : Disk) : Prop where
  anchored : Anchored s'
  kept : careful = true → Kept X s s'

/-- The server's certificate is signed with the key in the key file. -/
def Signed (X : Crypto) (s : Disk) : Prop :=
  ∃ k part serverKp serverDraw, s.files .caKey = some part ∧ X.fromPem part = some k ∧
    s.files .serverCert = some (X.serverPem k serverKp serverDraw) ∧
    s.files .serverKey = some (X.keyPem serverKp)

/-- A CA with this key is on the disk, with this certificate beside it. -/
structure Stands (X : Crypto) (s : Disk) (k : X.Key) (der : Bytes) : Prop where
  cert : ∃ text, s.files .caCert = some text ∧ pemToDer text = .ok der
  key : ∃ part, s.files .caKey = some part ∧ X.fromPem part = some k

section
variable {careful : Bool} {s s' s'' : Disk}

@[simp] theorem Disk.put_files (file other : CaFile) (text : Text) :
    (s.put file text).files other = if other = file then some text else s.files other := by
  simp [Disk.put, Function.update_apply]

@[simp] theorem Disk.put_roots (file : CaFile) (text : Text) : (s.put file text).roots = s.roots :=
  rfl

theorem Kept.refl : Kept X s s := ⟨id, fun _ hkey => ⟨hkey, rfl⟩⟩

theorem Kept.trans (h : Kept X s s') (h' : Kept X s' s'') : Kept X s s'' where
  paired := h'.paired ∘ h.paired
  key text hkey := by
    obtain ⟨hkey', hcert⟩ := h.key text hkey
    obtain ⟨hkey'', hcert'⟩ := h'.key text hkey'
    exact ⟨hkey'', hcert'.trans hcert⟩

theorem Moves.refl (h : Anchored s) : Moves X careful s s := ⟨h, fun _ => .refl⟩

theorem Stands.anchored {k : X.Key} {der : Bytes} (h : Stands X s k der) : Anchored s := by
  obtain ⟨text, hcert, -⟩ := h.cert
  exact fun _ => by simp [hcert]

/-- What neither the certificate nor the key is written to. -/
theorem moves_put {file : CaFile} {text : Text} (h : Anchored s) (hcert : file ≠ .caCert)
    (hkey : file ≠ .caKey) : Moves X careful s (s.put file text) := by
  refine ⟨?_, fun _ => ⟨fun hs => ⟨?_, ?_⟩, ?_⟩⟩
  · simpa [Anchored, hcert.symm, hkey.symm] using h
  · simpa [hcert.symm, hkey.symm] using hs.certified
  · simpa [hcert.symm, hkey.symm] using hs.trusted
  · simp [hcert.symm, hkey.symm]

theorem Paired.untrusted (h : Paired X s) (hkey : s.files .caKey = none) : s.roots = [] := by
  refine List.eq_nil_iff_forall_not_mem.mpr fun der hder => ?_
  simpa [hkey] using (h.trusted der hder).1

/-- As long as there is no key, the certificate may be anything. -/
theorem moves_putCert {text : Text} (hkey : careful = true → s.files .caKey = none) :
    Moves X careful s (s.put .caCert text) := by
  refine ⟨by simp [Anchored], fun hcareful => ⟨fun hs => ⟨?_, ?_⟩, ?_⟩⟩
  · simp [hkey hcareful]
  · simp [hs.untrusted (hkey hcareful)]
  · simp [hkey hcareful]

theorem moves_putKey {k : X.Key} {draw : ℕ} {text : Text}
    (hkey : careful = true → s.files .caKey = none)
    (hcert : s.files .caCert = some (X.rootPem k draw)) (htext : text <+: X.keyPem k) :
    Moves X careful s (s.put .caKey text) := by
  refine ⟨by simp [Anchored, hcert], fun hcareful => ⟨fun hs => ⟨?_, ?_⟩, ?_⟩⟩
  · simp only [Disk.put_files, reduceCtorEq, if_true, if_false, Option.some.injEq]
    rintro _ rfl
    exact ⟨k, draw, hcert, htext⟩
  · simp [hs.untrusted (hkey hcareful)]
  · simp [hkey hcareful]

theorem Stands.put {k : X.Key} {der : Bytes} {file : CaFile} {text : Text} (h : Stands X s k der)
    (hcert : file ≠ .caCert) (hkey : file ≠ .caKey) : Stands X (s.put file text) k der where
  cert := by simpa [hcert.symm] using h.cert
  key := by simpa [hkey.symm] using h.key

/-- The certificate of the CA on the disk may be trusted. -/
theorem moves_install {k : X.Key} {der : Bytes} (h : Stands X s k der) :
    Moves X careful s { s with roots := der :: s.roots } := by
  refine ⟨h.anchored, fun _ => ⟨fun hs => ⟨hs.certified, fun der' hder => ?_⟩,
    fun _ hkey => ⟨hkey, rfl⟩⟩⟩
  rcases List.mem_cons.mp hder with rfl | hder
  · obtain ⟨part, hpart, -⟩ := h.key
    exact ⟨by simp [hpart], h.cert⟩
  · exact hs.trusted der' hder

end

/-! ## Its operations -/

/-- The file is there, and the outside says no. -/
def misses (s : Disk) (env : Environment X) : Op → Bool
  | .exists file => !env.works && (s.files file).isSome
  | _ => false

/-- A careful outside misses no file. -/
def allowed (careful : Bool) (s : Disk) (env : Environment X) (op : Op) : Bool :=
  !(careful && misses s env op)

/-- Every call moves the disk as it may, and when the operation returns, `P`. -/
abbrev Returns (X : Crypto) (careful : Bool) {α : Type} (x : Launch X α) (s : Disk)
    (P : α → Disk → Prop) : Prop :=
  Achieves (limited exec (allowed careful)) (Moves X careful) x s P

section
variable {careful : Bool} {s : Disk}

/-- A call that leaves the disk as it is. -/
theorem returns_call (op : Op) (P : op.Reply X → Prop) (h : Anchored s)
    (hs : ∀ (e : Environment X) r s', allowed careful s e op = true →
      exec s e op = some (r, s') → s' = s ∧ P r) :
    Returns X careful (call op) s fun r s' => s' = s ∧ P r := by
  refine achieves_call fun e r s' he => ?_
  obtain ⟨hallowed, he⟩ := limited_some he
  obtain ⟨rfl, hr⟩ := hs e r s' hallowed he
  exact ⟨.refl h, rfl, hr⟩

/-- One whose reply may be anything. -/
theorem returns_quiet (op : Op) (h : Anchored s)
    (hs : ∀ e : Environment X, (exec s e op).map Prod.snd = some s) :
    Returns X careful (call op) s fun _ s' => s' = s := by
  refine achieves_call fun e r s' he => ?_
  have hsame := hs e
  rw [(limited_some he).2] at hsame
  obtain rfl : s' = s := Option.some.inj hsame
  exact ⟨.refl h, rfl⟩

/-- A file that is found is there, and a careful outside finds it. -/
theorem returns_exists (file : CaFile) (h : Anchored s) :
    Returns X careful (call (.exists file)) s fun b s' => s' = s ∧
      (b = true → (s.files file).isSome = true) ∧
        (b = false → careful = true → s.files file = none) := by
  refine returns_call (.exists file) (fun b : Bool => (b = true → (s.files file).isSome = true) ∧
    (b = false → careful = true → s.files file = none)) h fun e r s' hallowed he => ?_
  cases he
  refine ⟨rfl, fun hb => (Bool.and_eq_true_iff.mp hb).2, ?_⟩
  rintro hb rfl
  cases hfile : s.files file with
  | none => rfl
  | some text =>
      rw [hfile, Option.isSome_some, Bool.and_true] at hb
      simp [allowed, misses, hfile, hb] at hallowed

theorem returns_createDirAll (h : Anchored s) :
    Returns X careful createDirAll s fun _ s' => s' = s := by
  refine (returns_quiet _ h fun _ => rfl).bind fun b s' hb => ?_
  cases b with
  | false => exact achieves_throw
  | true => exact achieves_pure hb

theorem returns_readToString (file : CaFile) (h : Anchored s) :
    Returns X careful (readToString file) s fun text s' => s' = s ∧ s.files file = some text := by
  refine (returns_call _ (fun r => r = none ∨ r = s.files file) h fun e r s' _ he => ?_).bind
    fun b s' hb => ?_
  · cases he
    refine ⟨rfl, ?_⟩
    split <;> simp
  · obtain ⟨rfl, hb⟩ := hb
    cases b with
    | none => exact achieves_throw
    | some text => exact achieves_pure ⟨rfl, (hb.resolve_left (Option.some_ne_none text)).symm⟩

/-- A write that may be torn: whatever it leaves must be allowed. -/
theorem returns_write (file : CaFile) (text : Text) (h : Anchored s)
    (hmoves : ∀ part, part <+: text → Moves X careful s (s.put file part)) :
    Returns X careful (write file text) s fun _ s' => s' = s.put file text := by
  refine Achieves.bind (P := fun b s' => b = true → s' = s.put file text)
    (achieves_call fun e r s' he => ?_) fun b s' hb => ?_
  · obtain ⟨-, he⟩ := limited_some he
    cases hw : e.written with
    | whole =>
        simp only [exec, hw] at he
        cases he
        exact ⟨hmoves text List.prefix_rfl, fun _ => rfl⟩
    | unopened =>
        simp only [exec, hw] at he
        cases he
        exact ⟨.refl h, fun hb => (by cases hb)⟩
    | torn kept =>
        simp only [exec, hw] at he
        cases he
        exact ⟨hmoves _ (List.take_prefix kept text), fun hb => (by cases hb)⟩
  · cases b with
    | false => exact achieves_throw
    | true => exact achieves_pure (hb rfl)

theorem returns_generateRootCa (h : Anchored s) : Returns X careful generateRootCa s fun r s' =>
    s' = s ∧ ∃ draw, r.1 = X.rootPem r.2.2 draw ∧ r.2.1 = X.keyPem r.2.2 := by
  refine (returns_quiet _ h fun _ => rfl).bind fun b s' hb => ?_
  cases b with
  | none => exact achieves_throw
  | some drawn => exact achieves_pure ⟨hb, drawn.2, rfl, rfl⟩

theorem returns_issueServerCert (kp : X.Key) (h : Anchored s) :
    Returns X careful (issueServerCert kp) s fun r s' =>
      s' = s ∧ ∃ serverKp draw, r.1 = X.serverPem kp serverKp draw ∧ r.2 = X.keyPem serverKp := by
  refine (returns_quiet _ h fun _ => rfl).bind fun b s' hb => ?_
  cases b with
  | none => exact achieves_throw
  | some drawn => exact achieves_pure ⟨hb, drawn.1, drawn.2, rfl, rfl⟩

theorem returns_derOf (pem : Text) :
    Returns X careful (derOf pem) s fun der s' => s' = s ∧ pemToDer pem = .ok der := by
  unfold derOf
  split
  · next der hder => exact achieves_pure ⟨rfl, hder⟩
  · exact achieves_throw

theorem returns_installUserRoot {k : X.Key} {der : Bytes} (h : Stands X s k der) :
    Returns X careful (installUserRoot der) s fun _ s' =>
      Stands X s' k der ∧ s'.files = s.files := by
  refine achieves_call fun e r s' he => ?_
  obtain ⟨-, he⟩ := limited_some he
  cases hr : e.refusal with
  | none =>
      simp only [exec, hr] at he
      cases he
      exact ⟨moves_install h, ⟨h.cert, h.key⟩, rfl⟩
  | some message =>
      simp only [exec, hr] at he
      cases he
      exact ⟨.refl h.anchored, h, rfl⟩

theorem returns_loadCa (h : Anchored s) :
    Returns X careful loadCa s fun r s' => Stands X s' r.1 r.2 := by
  refine (returns_readToString _ h).bind fun certPem s₁ hcert => ?_
  obtain ⟨rfl, hcert⟩ := hcert
  refine (returns_readToString _ h).bind fun keyPem s₂ hkey => ?_
  obtain ⟨rfl, hkey⟩ := hkey
  cases hkp : X.fromPem keyPem with
  | none => exact achieves_throw
  | some kp =>
      refine (returns_derOf certPem).bind fun der s₃ hder => ?_
      obtain ⟨rfl, hder⟩ := hder
      exact achieves_pure ⟨⟨certPem, hcert, hder⟩, keyPem, hkey, hkp⟩

theorem returns_makeCa (h : Anchored s) (hnone : careful = true → s.files .caKey = none) :
    Returns X careful makeCa s fun r s' => Stands X s' r.1 r.2 := by
  refine (returns_generateRootCa h).bind fun ⟨certPem, keyPem, kp⟩ s₁ hr => ?_
  obtain ⟨rfl, draw, hcertPem, hkeyPem⟩ := hr
  dsimp only at hcertPem hkeyPem ⊢
  subst hcertPem hkeyPem
  refine (returns_write _ _ h fun _ _ => moves_putCert hnone).bind fun _ s₂ hs₂ => ?_
  have hnone₂ : careful = true → s₂.files .caKey = none := by simpa [hs₂] using hnone
  have hcert₂ : s₂.files .caCert = some (X.rootPem kp draw) := by simp [hs₂]
  have h₂ : Anchored s₂ := fun _ => by simp [hcert₂]
  refine (returns_write _ _ h₂ fun _ hpart => moves_putKey hnone₂ hcert₂ hpart).bind
    fun _ s₃ hs₃ => ?_
  refine (returns_derOf _).bind fun der s₄ hder => ?_
  obtain ⟨rfl, hder⟩ := hder
  have hstands : Stands X s₄ kp der :=
    ⟨⟨_, by simp [hs₃, hcert₂], hder⟩, _, by simp [hs₃], X.fromPem_keyPem kp⟩
  refine (returns_write _ _ hstands.anchored fun _ _ =>
    moves_put hstands.anchored (by decide) (by decide)).bind fun _ s₅ hs₅ => ?_
  have hstands₅ : Stands X s₅ kp der := hs₅ ▸ hstands.put (by decide) (by decide)
  refine (returns_installUserRoot hstands₅).bind fun refused s₆ hs₆ => ?_
  cases refused with
  | some message => exact achieves_throw
  | none => exact achieves_pure hs₆.1

theorem returns_issueAndWrite {k : X.Key} {der : Bytes} (h : Stands X s k der) :
    Returns X careful (issueAndWrite k) s fun _ s' => Signed X s' := by
  refine (returns_quiet _ h.anchored fun _ => rfl).bind fun b s₁ hb => ?_
  cases b with
  | false => exact achieves_throw
  | true =>
      obtain rfl := hb
      refine (returns_issueServerCert k h.anchored).bind fun ⟨certPem, keyPem⟩ s₂ hr => ?_
      obtain ⟨rfl, serverKp, serverDraw, hcertPem, hkeyPem⟩ := hr
      dsimp only at hcertPem hkeyPem ⊢
      subst hcertPem hkeyPem
      refine (returns_write _ _ h.anchored fun _ _ =>
        moves_put h.anchored (by decide) (by decide)).bind fun _ s₃ hs₃ => ?_
      have h₃ : Stands X s₃ k der := hs₃ ▸ h.put (by decide) (by decide)
      refine (returns_write _ _ h₃.anchored fun _ _ =>
        moves_put h₃.anchored (by decide) (by decide)).mono fun r s₄ hr => ?_
      cases r with
      | error e => trivial
      | ok u =>
          obtain rfl : s₄ = s₃.put .serverKey (X.keyPem serverKp) := hr
          obtain ⟨part, hpart, hkp⟩ := h.key
          exact ⟨k, part, serverKp, serverDraw, by simp [hs₃, hpart], hkp, by simp [hs₃], by simp⟩

/-- A key is looked for only next to a certificate, but there is none elsewhere. -/
theorem returns_caExists (h : Anchored s) : Returns X careful caExists s fun found s' =>
    s' = s ∧ (found = false → careful = true → s.files .caKey = none) := by
  refine (returns_exists .caCert h).bind fun b s₁ hb => ?_
  obtain ⟨rfl, -, hmissed⟩ := hb
  cases b with
  | false =>
      refine achieves_pure ⟨rfl, fun _ hcareful => ?_⟩
      have hcert := hmissed rfl hcareful
      cases hkey : s₁.files .caKey with
      | none => rfl
      | some text =>
          have hsome := h (by simp [hkey])
          rw [hcert] at hsome
          cases hsome
  | true =>
      refine (returns_exists .caKey h).mono fun r s₂ hr => ?_
      cases r with
      | error e => trivial
      | ok b => exact ⟨hr.1, hr.2.2⟩

theorem returns_loadOrMakeCa (h : Anchored s) :
    Returns X careful loadOrMakeCa s fun r s' => Stands X s' r.1 r.2 := by
  refine (returns_caExists h).bind fun found s₁ hfound => ?_
  obtain ⟨rfl, hnone⟩ := hfound
  cases found with
  | true => exact returns_loadCa h
  | false => exact returns_makeCa h (hnone rfl)

theorem returns_ensure (h : Anchored s) :
    Returns X careful (ensure X) s fun _ s' => Signed X s' := by
  refine (returns_createDirAll h).bind fun _ s₁ hs₁ => ?_
  obtain rfl := hs₁
  refine (returns_loadOrMakeCa h).bind fun r s₂ hstands => ?_
  exact (returns_installUserRoot hstands).bind fun _ s₃ hs₃ => returns_issueAndWrite hs₃.1

end

/-! ## Launch after launch -/

/-- One computer, on which the launcher is started and killed. -/
abbrev Computer (X : Crypto) := Boot (api X) Disk (Except CaError Unit)

def launches (X : Crypto) : Machine (Computer X) (Label (Environment X)) :=
  machine exec (ensure X).run fresh

/-- What holds between a moment at which no launch is under way and a later one. -/
structure Continued (X : Crypto) (b b' : Computer X) : Prop where
  key : ∀ text, b.state.files .caKey = some text →
    b'.state.files .caKey = some text ∧ b'.state.files .caCert = b.state.files .caCert
  /-- A launch that ends later has the same CA, and cannot return if its key was torn. -/
  later : ∀ text, b.state.files .caKey = some text → ∀ r ∈ b'.ended,
    r ∈ b.ended ∨ (r.2.files .caKey = some text ∧ r.2.files .caCert = b.state.files .caCert ∧
      (r.1.isOk = true → (X.fromPem text).isSome = true))

/-- The server's certificate is signed with the key of the CA's certificate. -/
def Served (X : Crypto) (s : Disk) : Prop :=
  ∃ k draw part serverKp serverDraw, s.files .caCert = some (X.rootPem k draw) ∧
    s.files .caKey = some part ∧ X.fromPem part = some k ∧
    s.files .serverCert = some (X.serverPem k serverKp serverDraw) ∧
    s.files .serverKey = some (X.keyPem serverKp)

section
variable {careful : Bool} {b b' : Computer X}

theorem anchored_fresh : Anchored fresh := fun h => (by cases h)

/-- What is known of a computer in the course of a run. -/
abbrev Known (X : Crypto) (careful : Bool) (b : Computer X) : Prop :=
  Sound (limited exec (allowed careful)) Anchored (Moves X careful)
    (OnEnd (fun _ => Signed X) fun _ _ => True) b

theorem Known.run (hb : Known X careful b)
    (k : Run (machine (limited exec (allowed careful)) (ensure X).run fresh) anyStep b b') :
    Known X careful b' ∧ Relation.ReflTransGen (Moves X careful) b.state b'.state ∧
      ∀ r ∈ b'.ended, r ∈ b.ended ∨ Relation.ReflTransGen (Moves X careful) b.state r.2 :=
  related_of_run hb (fun _ _ _ hmoves => hmoves.anchored) (fun _ => returns_ensure) k

theorem known_start : Known X careful (launches X).start :=
  ⟨anchored_fresh, fun q hq => (by cases hq), fun r hr => (List.not_mem_nil hr).elim⟩

theorem known_of_reachable (h : Reachable (launches X) anyStep b) : Known X false b := by
  have hfree : Reachable (launches X) (Heeds (allowed false)) b := by
    refine h.weaken fun b a _ => ?_
    cases a with
    | call e => exact fun _ _ _ => rfl
    | _ => trivial
  exact (known_start.run (run_limited hfree)).1

theorem Signed.readable {s : Disk} {text : Text} (h : Signed X s)
    (hkey : s.files .caKey = some text) : (X.fromPem text).isSome = true := by
  obtain ⟨k, part, -, -, hpart, hk, -⟩ := h
  obtain rfl : part = text := Option.some.inj (hpart.symm.trans hkey)
  simp [hk]

end

/-! ### A key of one letter -/

def pem (label : String) (body : Text) : Text :=
  ("-----BEGIN " ++ label ++ "-----\n").toList ++ body ++
    ("\n-----END " ++ label ++ "-----\n").toList

theorem pem_injective {label : String} {c c' : Char} (h : pem label [c] = pem label [c']) :
    c = c' := by
  have hbody := List.append_cancel_right h
  exact List.singleton_inj.mp (List.append_cancel_left hbody)

def letterOf (text : Text) : Option Char :=
  (text.drop 28).head?.filter fun c => text = pem "PRIVATE KEY" [c]

theorem letterOf_eq_some {text : Text} {c : Char} (h : letterOf text = some c) :
    text = pem "PRIVATE KEY" [c] := by
  obtain ⟨-, htext⟩ := Option.filter_eq_some_iff.mp h
  exact of_decide_eq_true htext

/-- Stand-ins for `rcgen` and `sha1`: keys of one letter, and certificates that name it. -/
def oneLetter : Crypto where
  Key := Char
  keyPem c := pem "PRIVATE KEY" [c]
  fromPem := letterOf
  rootPem c _ := pem "CERTIFICATE" ['T', 'U', c, 'J']
  serverPem c c' _ := pem "CERTIFICATE" ['T', c', c, 'J']
  sha1 der := der
  fromPem_keyPem c := Option.filter_eq_some_iff.mpr ⟨rfl, decide_eq_true rfl⟩
  fromPem_start c c' part hpart hc := by
    obtain rfl := letterOf_eq_some hc
    exact pem_injective (hpart.eq_of_length (by simp [pem]))

def usual : Environment oneLetter := ⟨true, .whole, some ('l', 0), none⟩

/-- The first launch dies while it writes its key. -/
def tornLaunch : List (Label (Environment oneLetter)) :=
  [.launch, .call usual, .call usual, .call usual, .call usual,
    .call { usual with written := .torn 30 }, .kill]

/-- No call of the label fails. -/
def working (_ : Computer oneLetter) : Label (Environment oneLetter) → Bool
  | .call e => e.works
  | _ => true

/-- The second launch cannot ask for the certificate, and writes another over it. -/
def missedLaunch : List (Label (Environment oneLetter)) :=
  [.launch, .call usual, .call { usual with works := false },
    .call { usual with drawn := some ('m', 0) }, .call usual, .kill]

theorem not_continued_missed : ∃ b b', Reachable (launches oneLetter) anyStep b ∧
    b.running = none ∧ Run (launches oneLetter) anyStep b b' ∧ ¬ Continued oneLetter b b' := by
  obtain ⟨b, hb⟩ : ∃ b,
      replay (launches oneLetter) unchecked (launches oneLetter).start tornLaunch = some b := ⟨_, rfl⟩
  obtain ⟨b', hb'⟩ : ∃ b', replay (launches oneLetter) unchecked b missedLaunch = some b' := by
    cases hb
    exact ⟨_, rfl⟩
  have h : Reachable (launches oneLetter) anyStep b := replay_run (fun _ _ _ => trivial) hb
  have k : Run (launches oneLetter) anyStep b b' := replay_run (fun _ _ _ => trivial) hb'
  refine ⟨b, b', h, by cases hb; rfl, k, fun hcontinued => ?_⟩
  have hcert : b'.state.files .caCert = b.state.files .caCert :=
    (hcontinued.key ((pem "PRIVATE KEY" ['l']).take 30) (by cases hb; rfl)).2
  cases hb
  cases hb'
  exact absurd hcert (by decide)

end Xlpod.CaLaunches
