/-
# When libcrypto fails

`Identity` hashes without fail.  Here is `identity_builder` (`src/identity_support.cpp`) with a
libcrypto that may refuse any call: to make a context, to initialise it, to take bytes, to give
the digest; and that may give a digest of another size, which the builder refuses by itself.

Of the calls that succeed one thing is assumed, what libcrypto documents of them: a digest of 32
bytes, given by a context that was initialised and has taken every byte it was given since, is
the SHA-256 digest of those bytes (`Libcrypto.final_digest`).  Nothing else is: which calls fail,
and how often, is up to libcrypto.

* Section 1: libcrypto, and the calls the builder makes of it, the allocations among them.
* Section 2: the builder, from its constructor to its destructor.
* Section 3: what feeding a builder does, whether it succeeds or not.
* Section 4: the protocol of a context, and the life of a builder (`builder_life`): its identity
  is the one of `Identity` or there is none, and what it leaves allocated.
* Section 5: the seven identities of the library are given by such lives.
-/
import Pkgexec.IdentityDomains
import Pkgexec.Lib.Audit

namespace Pkgexec

open Audit Bytes

/-! ## 1. libcrypto

libcrypto may refuse to make a context, to initialise it, to feed it and to finish it, and the
builder asks after each call.  Allocations are in the log as well, so that it shows what was not
freed. -/

/-- A libcrypto with states `W`, and what is assumed of it: a context holds the bytes it was given
since it was initialised, as long as every call has succeeded, and a digest of 32 bytes that it
gives is theirs. -/
structure Libcrypto [External] (W : Type) where
  /-- `EVP_MD_CTX_new`. -/
  make : W → Bool × W
  /-- `EVP_DigestInit_ex` for SHA-256. -/
  init : W → Bool × W
  /-- `EVP_DigestUpdate`. -/
  update : Bytes → W → Bool × W
  /-- `EVP_DigestFinal_ex`. -/
  final : W → Option Bytes × W
  /-- `EVP_MD_CTX_free`. -/
  free : W → W
  /-- The context has been given these bytes. -/
  Holds : W → Bytes → Prop
  init_holds : ∀ w, (init w).1 = true → Holds (init w).2 []
  update_holds : ∀ w bytes data, Holds w bytes → (update data w).1 = true →
    Holds (update data w).2 (bytes ++ data)
  /-- The assumption on the digest. -/
  final_digest : ∀ w bytes d, Holds w bytes → (final w).1 = some d → d.length = 32 →
    d = (External.sha256 bytes).val

/-- A call of the builder, with its answer. -/
inductive CryptoCall
  /-- `new implementation`. -/
  | allocate
  | contextNew (made : Bool)
  | digestInit (done : Bool)
  | digestUpdate (data : Bytes) (done : Bool)
  | digestFinal (digest : Option Bytes)
  | contextFree
  /-- `delete implementation_`. -/
  | deallocate
  deriving DecidableEq

/-! ## 2. The builder

The operations of `Identity` once more, over a log and with a failure for every refusal.  A builder
that is finished takes nothing more; a constructor that fails leaves no object, and so its
destructor does not run. -/

/-- `identity_builder`, with the libcrypto it calls. -/
structure BuilderState (W : Type) where
  world : W
  finished : Bool

abbrev BuilderM (W : Type) := AuditM CryptoCall (BuilderState W) Error

section Builder

variable [External] {W : Type} (lib : Libcrypto W)

/-- A call of libcrypto. -/
def libcall {β : Type} (f : W → β × W) (entry : β → CryptoCall) : BuilderM W β :=
  AuditM.call (fun s => ((f s.world).1, { s with world := (f s.world).2 })) entry

/-- `fail_crypto`. -/
def failCrypto {α : Type} (message : String) : BuilderM W α :=
  AuditM.stop ⟨.identityFailed, text message⟩

namespace FallibleBuilder

/-- `add_bytes`. -/
def addBytes (data : Bytes) : BuilderM W Unit := fun s =>
  if s.finished = true then failCrypto "identity digest was already finalized" s
  else if data = [] then (pure () : BuilderM W Unit) s
  else (do
    let done ← libcall (lib.update data) (CryptoCall.digestUpdate data)
    if done = true then pure () else failCrypto "cannot update identity digest") s

def addU8 (v : UInt8) : BuilderM W Unit := addBytes lib [v]

def addBool (v : Bool) : BuilderM W Unit := addU8 lib (if v then 1 else 0)

def addU16 (v : UInt16) : BuilderM W Unit := addBytes lib (bigEndian 2 v.toNat)

def addU32 (v : UInt32) : BuilderM W Unit := addBytes lib (bigEndian 4 v.toNat)

def addU64 (v : UInt64) : BuilderM W Unit := addBytes lib (bigEndian 8 v.toNat)

def addI64 (v : Int64) : BuilderM W Unit := addU64 lib v.toUInt64

def addString (v : Bytes) : BuilderM W Unit := do
  addU64 lib (.ofNat v.length)
  addBytes lib v

def addOptionalU64 (v : Option UInt64) : BuilderM W Unit := do
  addBool lib v.isSome
  match v with
  | none => pure ()
  | some x => addU64 lib x

def addOptionalI64 (v : Option Int64) : BuilderM W Unit := do
  addBool lib v.isSome
  match v with
  | none => pure ()
  | some x => addI64 lib x

/-- `identity_builder(domain)`.  The object is constructed only if all of it succeeds. -/
def construct (domain : String) : BuilderM W Unit := do
  AuditM.watch (fun _ => [.allocate])
  let made ← libcall lib.make CryptoCall.contextNew
  if made = false then
    AuditM.watch (fun _ => [.deallocate])
    failCrypto "cannot allocate identity digest context"
  else
    let done ← libcall lib.init CryptoCall.digestInit
    if done = false then
      libcall (fun w => ((), lib.free w)) (fun _ => CryptoCall.contextFree)
      AuditM.watch (fun _ => [.deallocate])
      failCrypto "cannot initialize identity digest context"
    else addString lib (text domain)

/-- What `finish` makes of the digest. -/
def showDigest : Option Bytes → BuilderM W Bytes
  | none => failCrypto "cannot finalize identity digest"
  | some d => do
    AuditM.lift (fun s => .ok ((), { s with finished := true }))
    if d.length ≠ 32 then failCrypto "unexpected identity digest size" else pure (hexEncode d)

/-- `finish`. -/
def finish : BuilderM W Bytes := fun s =>
  if s.finished = true then failCrypto "identity digest was already finalized" s
  else (do
    let digest ← libcall lib.final CryptoCall.digestFinal
    showDigest digest) s

omit [External] in
theorem showDigest_of_size {d : Bytes} (h : d.length = 32) (s : BuilderState W) :
    showDigest (some d) s = ⟨[], .ok (hexEncode d), { s with finished := true }⟩ := by
  rw [showDigest, AuditM.lift_bind_of_ok rfl, if_neg (not_not.mpr h)]
  rfl

omit [External] in
theorem showDigest_of_not_size {d : Bytes} (h : d.length ≠ 32) (s : BuilderState W) :
    showDigest (some d) s = ⟨[], .error ⟨.identityFailed, text "unexpected identity digest size"⟩,
      { s with finished := true }⟩ := by
  rw [showDigest, AuditM.lift_bind_of_ok rfl, if_pos h]
  rfl

/-- `~identity_builder`. -/
def destroy : BuilderM W Unit := do
  libcall (fun w => ((), lib.free w)) (fun _ => CryptoCall.contextFree)
  AuditM.watch (fun _ => [.deallocate])

end FallibleBuilder

/-- A field, as the library adds it. -/
inductive Field
  | bool (v : Bool)
  | u8 (v : UInt8)
  | u16 (v : UInt16)
  | u32 (v : UInt32)
  | u64 (v : UInt64)
  | string (v : Bytes)
  | optionalU64 (v : Option UInt64)
  | optionalI64 (v : Option Int64)

/-- To the builder here, -/
def Field.add : Field → BuilderM W Unit
  | bool v => FallibleBuilder.addBool lib v
  | u8 v => FallibleBuilder.addU8 lib v
  | u16 v => FallibleBuilder.addU16 lib v
  | u32 v => FallibleBuilder.addU32 lib v
  | u64 v => FallibleBuilder.addU64 lib v
  | string v => FallibleBuilder.addString lib v
  | optionalU64 v => FallibleBuilder.addOptionalU64 lib v
  | optionalI64 v => FallibleBuilder.addOptionalI64 lib v

omit [External] in
/-- and to the one of `Identity`. -/
def Field.addTo (hash : IdentityBuilder) : Field → IdentityBuilder
  | bool v => hash.addBool v
  | u8 v => hash.addU8 v
  | u16 v => hash.addU16 v
  | u32 v => hash.addU32 v
  | u64 v => hash.addU64 v
  | string v => hash.addString v
  | optionalU64 v => hash.addOptionalU64 v
  | optionalI64 v => hash.addOptionalI64 v

/-- **The life of a builder**, as the functions that identify something have it: the fields, then
the digest, and the destructor in any case, unless the constructor has failed. -/
def builderLife (domain : String) (fields : List Field) (w : W) :
    Trace CryptoCall (BuilderState W) Error Bytes :=
  let constructed := FallibleBuilder.construct lib domain ⟨w, false⟩
  match constructed.result with
  | .error e => ⟨constructed.log, .error e, constructed.state⟩
  | .ok () =>
    let used := (do
      fields.forM (Field.add lib)
      FallibleBuilder.finish lib) constructed.state
    let destroyed := FallibleBuilder.destroy lib used.state
    ⟨constructed.log ++ used.log ++ destroyed.log, used.result, destroyed.state⟩

/-! ## 3. Feeding a builder

What a builder has been given is known from the log: the pieces that were taken, and at most one
refusal, which is the last call.  `Feeding` composes along the fields, and for each of them the
bytes are those that `Identity` adds. -/

/-- The calls that give libcrypto these pieces. -/
def updates (pieces : List Bytes) : List CryptoCall :=
  pieces.map (fun data => .digestUpdate data true)

/-- **The run has given these bytes to the context, or the last call has failed.** -/
structure Feeds (data : Bytes) (s : BuilderState W)
    (t : Trace CryptoCall (BuilderState W) Error Unit) : Prop where
  done : t.result = .ok () → (∃ pieces, t.log = updates pieces) ∧ t.state.finished = false ∧
    ∀ bytes, lib.Holds s.world bytes → lib.Holds t.state.world (bytes ++ data)
  failed : ∀ e, t.result = .error e → e.code = .identityFailed ∧
    ∃ pieces last, t.log = updates pieces ++ [.digestUpdate last false]

/-- So does every run from a builder that is not finished. -/
def Feeding (m : BuilderM W Unit) (data : Bytes) : Prop :=
  ∀ s : BuilderState W, s.finished = false → Feeds lib data s (m s)

variable {lib} {m m' : BuilderM W Unit} {data data' : Bytes}

theorem Feeding.nothing : Feeding lib (pure ()) [] := by
  intro s hs
  refine ⟨fun _ => ⟨⟨[], rfl⟩, hs, ?_⟩, ?_⟩
  · intro bytes hbytes
    rwa [List.append_nil]
  · intro e he
    exact absurd he (by simp [pure])

theorem Feeding.andThen (h : Feeding lib m data) (h' : Feeding lib m' data') :
    Feeding lib (m >>= fun _ => m') (data ++ data') := by
  intro s hs
  have hfirst := h s hs
  cases hm : (m s).result with
  | error e =>
    rw [AuditM.bind_of_error hm]
    refine ⟨fun hok => absurd hok (by simp), ?_⟩
    intro e' he'
    obtain rfl := Except.error.inj he'
    exact hfirst.failed _ hm
  | ok u =>
    obtain ⟨⟨pieces, hlog⟩, hfinished, hholds⟩ := hfirst.done hm
    have hsecond := h' (m s).state hfinished
    rw [AuditM.bind_of_ok hm]
    refine ⟨?_, ?_⟩
    · intro hok
      obtain ⟨⟨pieces', hlog'⟩, hfinished', hholds'⟩ := hsecond.done hok
      refine ⟨⟨pieces ++ pieces', ?_⟩, hfinished', ?_⟩
      · rw [hlog, hlog', updates, updates, updates, List.map_append]
      · intro bytes hbytes
        rw [← List.append_assoc]
        exact hholds' _ (hholds _ hbytes)
    · intro e he
      obtain ⟨hcode, pieces', last, hlog'⟩ := hsecond.failed e he
      refine ⟨hcode, pieces ++ pieces', last, ?_⟩
      rw [hlog, hlog', updates, updates, updates, List.map_append, List.append_assoc]

theorem feeding_addBytes (data : Bytes) : Feeding lib (FallibleBuilder.addBytes lib data) data := by
  intro s hs
  have hopen : ¬ s.finished = true := by rw [hs]; simp
  unfold FallibleBuilder.addBytes
  rw [if_neg hopen]
  split
  · rename_i hempty
    subst hempty
    exact Feeding.nothing s hs
  · rw [libcall, AuditM.call_bind]
    cases hdone : (lib.update data s.world).1 with
    | true =>
      refine ⟨fun _ => ⟨⟨[data], rfl⟩, hs, ?_⟩, ?_⟩
      · intro bytes hbytes
        exact lib.update_holds s.world bytes data hbytes hdone
      · intro e he
        exact absurd he (by simp [pure])
    | false =>
      refine ⟨?_, ?_⟩
      · intro hok
        exact absurd hok (by simp [failCrypto, AuditM.stop])
      · intro e he
        obtain rfl := Except.error.inj he
        exact ⟨rfl, [], data, rfl⟩

theorem feeding_addString (v : Bytes) : Feeding lib (FallibleBuilder.addString lib v)
    (bigEndian 8 (UInt64.ofNat v.length).toNat ++ v) :=
  (feeding_addBytes _).andThen (feeding_addBytes v)

/-- A field gives the bytes that `Identity` adds for it. -/
theorem feeding_field (f : Field) : Feeding lib (f.add lib) (f.addTo ⟨[]⟩).preimage := by
  cases f with
  | bool v => exact feeding_addBytes _
  | u8 v => exact feeding_addBytes _
  | u16 v => exact feeding_addBytes _
  | u32 v => exact feeding_addBytes _
  | u64 v => exact feeding_addBytes _
  | string v => exact feeding_addString v
  | optionalU64 v =>
    cases v with
    | none => exact (feeding_addBytes _).andThen .nothing
    | some x => exact (feeding_addBytes _).andThen (feeding_addBytes _)
  | optionalI64 v =>
    cases v with
    | none => exact (feeding_addBytes _).andThen .nothing
    | some x => exact (feeding_addBytes _).andThen (feeding_addBytes _)

omit [External] in
theorem preimage_addTo (hash : IdentityBuilder) (f : Field) :
    (f.addTo hash).preimage = hash.preimage ++ (f.addTo ⟨[]⟩).preimage := by
  cases f with
  | string v =>
    simp [Field.addTo, IdentityBuilder.addString, IdentityBuilder.addBytes, List.append_assoc]
  | optionalU64 v => cases v <;> simp [Field.addTo, IdentityBuilder.addOptionalU64,
      IdentityBuilder.addOptional]
  | optionalI64 v => cases v <;> simp [Field.addTo, IdentityBuilder.addOptionalI64,
      IdentityBuilder.addOptional, IdentityBuilder.addI64]
  | _ => simp [Field.addTo]

omit [External] in
theorem preimage_foldl_addTo (hash : IdentityBuilder) (fields : List Field) :
    (fields.foldl Field.addTo hash).preimage =
      hash.preimage ++ (fields.foldl Field.addTo ⟨[]⟩).preimage := by
  induction fields generalizing hash with
  | nil => simp
  | cons f fields ih =>
    rw [List.foldl_cons, List.foldl_cons, ih, preimage_addTo, ih (f.addTo ⟨[]⟩),
      List.append_assoc]

theorem feeding_fields (fields : List Field) :
    Feeding lib (fields.forM (Field.add lib)) (fields.foldl Field.addTo ⟨[]⟩).preimage := by
  induction fields with
  | nil => exact Feeding.nothing
  | cons f fields ih =>
    rw [List.foldl_cons, preimage_foldl_addTo]
    exact (feeding_field f).andThen ih

/-! ## 4. The life of a builder

A life is its constructor, what it is used for, and its destructor.  The first two have a handful
of outcomes (`Constructed`, `Used`), and each pair of them is checked against what is to be said of
the whole (`LifeSpec`). -/

/-- What may be done with a builder's allocations. -/
inductive ContextPhase
  | absent
  | allocated
  | created
  /-- The context takes bytes. -/
  | fed
  /-- The digest was taken. -/
  | spent
  /-- A call has failed, and the context may only be freed. -/
  | broken
  /-- There is no context to free any more. -/
  | freed
  | released
  deriving DecidableEq, Repr

/-- **The protocol of a context.**  It is initialised once and then takes bytes, until the digest
is taken or a call fails; it is freed once, and then the object that owns it. -/
def ContextPhase.next : ContextPhase → CryptoCall → Option ContextPhase
  | absent, .allocate => some allocated
  | allocated, .contextNew made => some (if made then created else freed)
  | created, .digestInit done => some (if done then fed else broken)
  | fed, .digestUpdate _ done => some (if done then fed else broken)
  | fed, .digestFinal digest => some (if digest.isSome then spent else broken)
  | fed, .contextFree => some freed
  | spent, .contextFree => some freed
  | broken, .contextFree => some freed
  | freed, .deallocate => some released
  | _, _ => none

/-- The phase after some calls, as long as they keep to the protocol. -/
def phaseAfter (log : List CryptoCall) : Option ContextPhase :=
  log.foldlM ContextPhase.next .absent

/-- The call did what it was asked to.  A digest of another size is none of SHA-256. -/
def CryptoCall.Succeeded : CryptoCall → Prop
  | contextNew made => made = true
  | digestInit done => done = true
  | digestUpdate _ done => done = true
  | digestFinal digest => ∃ d, digest = some d ∧ d.length = 32
  | _ => True

/-- libcrypto makes a context and initialises it, and then does not take the domain. -/
def DomainRefused (lib : Libcrypto W) (domain : String) (w : W) : Prop :=
  (lib.make w).1 = true ∧ (lib.init (lib.make w).2).1 = true ∧
    ∃ e, (FallibleBuilder.construct lib domain ⟨w, false⟩).result = .error e

omit [External] in
/-- A context goes on taking bytes. -/
theorem foldlM_updates (pieces : List Bytes) (log : List CryptoCall) :
    (updates pieces ++ log).foldlM ContextPhase.next .fed = log.foldlM ContextPhase.next .fed := by
  induction pieces with
  | nil => rfl
  | cons data pieces ih => exact ih

omit [External] in
/-- The calls after a constructor. -/
theorem phaseAfter_constructor (log : List CryptoCall) :
    phaseAfter ([.allocate, .contextNew true, .digestInit true] ++ log) =
      log.foldlM ContextPhase.next .fed := rfl

omit [External] in
theorem succeeded_updates {pieces : List Bytes} {c : CryptoCall} (h : c ∈ updates pieces) :
    c.Succeeded := by
  obtain ⟨data, -, rfl⟩ := List.mem_map.mp h
  rfl

/-- What a constructor does. -/
inductive Constructed (lib : Libcrypto W) (domain : String) (w : W) :
    Trace CryptoCall (BuilderState W) Error Unit → Prop
  | unmade {s : BuilderState W} {e : Error} (made : (lib.make w).1 = false)
      (code : e.code = .identityFailed) :
      Constructed lib domain w ⟨[.allocate, .contextNew false, .deallocate], .error e, s⟩
  | uninitialized {s : BuilderState W} {e : Error} (made : (lib.make w).1 = true)
      (done : (lib.init (lib.make w).2).1 = false) (code : e.code = .identityFailed) :
      Constructed lib domain w
        ⟨[.allocate, .contextNew true, .digestInit false, .contextFree, .deallocate], .error e, s⟩
  | fed {t : Trace CryptoCall (BuilderState W) Error Unit} (made : (lib.make w).1 = true)
      (done : (lib.init (lib.make w).2).1 = true)
      (feeds : Feeds lib (IdentityBuilder.new domain).preimage
        ⟨(lib.init (lib.make w).2).2, false⟩ t) :
      Constructed lib domain w
        ⟨[.allocate, .contextNew true, .digestInit true] ++ t.log, t.result, t.state⟩

theorem constructed (lib : Libcrypto W) (domain : String) (w : W) :
    Constructed lib domain w (FallibleBuilder.construct lib domain ⟨w, false⟩) := by
  unfold FallibleBuilder.construct
  rw [AuditM.watch_bind, libcall, AuditM.call_bind]
  cases hmade : (lib.make w).1 with
  | false => exact .unmade hmade rfl
  | true =>
    simp only [Bool.true_eq_false, if_false]
    rw [libcall, AuditM.call_bind]
    cases hdone : (lib.init (lib.make w).2).1 with
    | false =>
      simp only [if_true]
      exact .uninitialized hmade hdone rfl
    | true =>
      simp only [Bool.true_eq_false, if_false]
      exact .fed hmade hdone (feeding_addString (text domain) _ rfl)

/-- What the fields and `finish` do, with a context that holds some bytes. -/
inductive Used (bytes : Bytes) : Trace CryptoCall (BuilderState W) Error Bytes → Prop
  | refused {pieces : List Bytes} {last : Bytes} {s : BuilderState W} {e : Error}
      (code : e.code = .identityFailed) :
      Used bytes ⟨updates pieces ++ [.digestUpdate last false], .error e, s⟩
  | unfinished {pieces : List Bytes} {s : BuilderState W} {e : Error}
      (code : e.code = .identityFailed) :
      Used bytes ⟨updates pieces ++ [.digestFinal none], .error e, s⟩
  | missized {pieces : List Bytes} {d : Bytes} {s : BuilderState W} {e : Error}
      (size : d.length ≠ 32) (code : e.code = .identityFailed) :
      Used bytes ⟨updates pieces ++ [.digestFinal (some d)], .error e, s⟩
  | finished {pieces : List Bytes} {s : BuilderState W} :
      Used bytes ⟨updates pieces ++ [.digestFinal (some (External.sha256 bytes).val)],
        .ok (sha256Hex bytes), s⟩

theorem used {s : BuilderState W} {bytes : Bytes} (hs : s.finished = false)
    (hholds : lib.Holds s.world bytes) (fields : List Field) :
    Used (bytes ++ (fields.foldl Field.addTo ⟨[]⟩).preimage)
      ((do
        fields.forM (Field.add lib)
        FallibleBuilder.finish lib) s) := by
  have hfeeding : Feeding lib (fields.forM (Field.add lib)) _ := feeding_fields fields
  have hfeeds := hfeeding s hs
  cases hresult : (fields.forM (Field.add lib) s).result with
  | error e =>
    obtain ⟨hcode, pieces, last, hlog⟩ := hfeeds.failed e hresult
    rw [AuditM.bind_of_error hresult, hlog]
    exact .refused hcode
  | ok u =>
    obtain ⟨⟨pieces, hlog⟩, hfinished, hfed⟩ := hfeeds.done hresult
    have hfed := hfed bytes hholds
    rw [AuditM.bind_of_ok hresult, hlog]
    generalize (fields.forM (Field.add lib) s).state = s' at hfinished hfed
    have hopen : ¬ s'.finished = true := by rw [hfinished]; simp
    unfold FallibleBuilder.finish
    rw [if_neg hopen, libcall, AuditM.call_bind]
    cases hdigest : (lib.final s'.world).1 with
    | none => exact .unfinished rfl
    | some d =>
      by_cases hsize : d.length = 32
      · obtain rfl := lib.final_digest s'.world _ d hfed hdigest hsize
        rw [FallibleBuilder.showDigest_of_size hsize]
        exact .finished
      · rw [FallibleBuilder.showDigest_of_not_size hsize]
        exact .missized hsize rfl

/-- What is to be said of a life. -/
structure LifeSpec (preimage : Bytes) (refused : Prop)
    (t : Trace CryptoCall (BuilderState W) Error Bytes) : Prop where
  succeeds : (∃ hex, t.result = .ok hex) ↔ ∀ c ∈ t.log, c.Succeeded
  identity : ∀ hex, t.result = .ok hex → hex = sha256Hex preimage
  code : ∀ e, t.result = .error e → e.code = .identityFailed
  released : ¬ refused → phaseAfter t.log = some .released
  leaked : refused → phaseAfter t.log = some .broken

/-- A life that ends with an error. -/
theorem LifeSpec.of_error {preimage : Bytes} {refused : Prop} {log : List CryptoCall} {e : Error}
    {s : BuilderState W} {c : CryptoCall} (code : e.code = .identityFailed) (mem : c ∈ log)
    (failed : ¬ c.Succeeded) (released : ¬ refused → phaseAfter log = some .released)
    (leaked : refused → phaseAfter log = some .broken) :
    LifeSpec preimage refused ⟨log, .error e, s⟩ where
  succeeds := iff_of_false (by simp) (fun h => failed (h c mem))
  identity hex h := absurd h (by simp)
  code e' h := by
    obtain rfl := Except.error.inj h
    exact code
  released := released
  leaked := leaked

/-- A builder that was constructed: what it was used for, and its end. -/
theorem LifeSpec.of_used {preimage : Bytes} {refused : Prop} {pieces : List Bytes}
    {ended : Trace CryptoCall (BuilderState W) Error Bytes} {s : BuilderState W} (hno : ¬ refused)
    (hused : Used preimage ended) :
    LifeSpec preimage refused ⟨[.allocate, .contextNew true, .digestInit true] ++ updates pieces ++
      ended.log ++ [.contextFree, .deallocate], ended.result, s⟩ := by
  have hphase : ∀ (pieces' : List Bytes) (c : CryptoCall),
      phaseAfter ([.allocate, .contextNew true, .digestInit true] ++ updates pieces ++
        (updates pieces' ++ [c]) ++ [.contextFree, .deallocate]) =
      [c, .contextFree, .deallocate].foldlM ContextPhase.next .fed := by
    intro pieces' c
    rw [List.append_assoc, List.append_assoc, List.append_assoc, phaseAfter_constructor,
      foldlM_updates, foldlM_updates]
    rfl
  cases hused with
  | @refused pieces' last _ _ code =>
    refine .of_error code (c := .digestUpdate last false) (by simp)
      (by simp [CryptoCall.Succeeded]) ?_ (fun h => absurd h hno)
    intro _
    exact hphase pieces' (.digestUpdate last false)
  | @unfinished pieces' _ _ code =>
    refine .of_error code (c := .digestFinal none) (by simp)
      (by simp [CryptoCall.Succeeded]) ?_ (fun h => absurd h hno)
    intro _
    exact hphase pieces' (.digestFinal none)
  | @missized pieces' d _ _ size code =>
    refine .of_error code (c := .digestFinal (some d)) (by simp)
      (by simp [CryptoCall.Succeeded, size]) ?_ (fun h => absurd h hno)
    intro _
    exact hphase pieces' (.digestFinal (some d))
  | @finished pieces' _ =>
    refine ⟨iff_of_true ⟨_, rfl⟩ ?_, ?_, ?_, ?_, fun h => absurd h hno⟩
    · intro c hc
      simp only [List.mem_append, List.mem_cons, List.not_mem_nil, or_false] at hc
      rcases hc with ((hc | hc) | (hc | rfl)) | hc
      · rcases hc with rfl | rfl | rfl
        · trivial
        · rfl
        · rfl
      · exact succeeded_updates hc
      · exact succeeded_updates hc
      · exact ⟨_, rfl, (External.sha256 preimage).property⟩
      · rcases hc with rfl | rfl
        · trivial
        · trivial
    · intro hex hok
      exact (Except.ok.inj hok).symm
    · intro e herror
      exact absurd herror (by simp)
    · intro _
      exact hphase pieces' _

theorem lifeSpec (lib : Libcrypto W) (domain : String) (fields : List Field) (w : W) :
    LifeSpec (fields.foldl Field.addTo (IdentityBuilder.new domain)).preimage
      (DomainRefused lib domain w) (builderLife lib domain fields w) := by
  have hconstructed := constructed lib domain w
  unfold builderLife DomainRefused
  generalize FallibleBuilder.construct lib domain ⟨w, false⟩ = made at hconstructed
  cases hconstructed with
  | unmade made code =>
    refine .of_error code (c := .contextNew false) (by simp) (by simp [CryptoCall.Succeeded]) ?_ ?_
    · intro _
      rfl
    · rintro ⟨hmade, -⟩
      exact absurd (hmade.symm.trans made) (by simp)
  | uninitialized made done code =>
    refine .of_error code (c := .digestInit false) (by simp) (by simp [CryptoCall.Succeeded]) ?_ ?_
    · intro _
      rfl
    · rintro ⟨-, hdone, -⟩
      exact absurd (hdone.symm.trans done) (by simp)
  | @fed t made done feeds =>
    cases hresult : t.result with
    | error e =>
      obtain ⟨hcode, pieces, last, hlog⟩ := feeds.failed e hresult
      refine .of_error hcode (c := .digestUpdate last false) (by simp [hlog])
        (by simp [CryptoCall.Succeeded]) ?_ ?_
      · intro hno
        exact absurd ⟨made, done, e, rfl⟩ hno
      · intro _
        rw [hlog, phaseAfter_constructor, foldlM_updates]
        rfl
    | ok u =>
      obtain ⟨⟨pieces, hlog⟩, hfinished, hholds⟩ := feeds.done hresult
      have hfed : lib.Holds t.state.world (IdentityBuilder.new domain).preimage :=
        hholds [] (lib.init_holds _ done)
      have hused := used hfinished hfed fields
      rw [← preimage_foldl_addTo] at hused
      have hconstruct : ¬ ((lib.make w).1 = true ∧ (lib.init (lib.make w).2).1 = true ∧
          ∃ e, (Except.ok u : Except Error Unit) = .error e) := by simp
      dsimp only
      rw [hlog]
      exact .of_used hconstruct hused

/-- **An identity, or `identity_failed`.**  Whichever calls libcrypto fails, and with no more than
`Libcrypto.final_digest` assumed of those that succeed, the life of a builder ends with the identity
that `Identity` gives the same fields, or with `identity_failed`: with the identity exactly when
every call has succeeded.  The calls keep to the protocol of a context.
What was allocated is released in the end, unless libcrypto made and initialised a context and
then did not take the domain: the object is not constructed then, and nothing frees its context. -/
theorem builder_life (lib : Libcrypto W) (domain : String) (fields : List Field) (w : W) :
    ((∃ hex, (builderLife lib domain fields w).result = .ok hex) ↔
        ∀ c ∈ (builderLife lib domain fields w).log, c.Succeeded) ∧
      (∀ hex, (builderLife lib domain fields w).result = .ok hex →
        hex = sha256Hex (fields.foldl Field.addTo (IdentityBuilder.new domain)).preimage) ∧
      (∀ e, (builderLife lib domain fields w).result = .error e → e.code = .identityFailed) ∧
      (¬ DomainRefused lib domain w →
        phaseAfter (builderLife lib domain fields w).log = some .released) ∧
      (DomainRefused lib domain w →
        phaseAfter (builderLife lib domain fields w).log = some .broken) := by
  have h := lifeSpec lib domain fields w
  exact ⟨h.succeeds, h.identity, h.code, h.released, h.leaked⟩

/-! ## 5. The identities of the library

The `identify_...` functions as lists of fields.  That these lists give the bytes of the model is
one lemma (`bytes_of_recipe`), and then the lives of builders speak of identities. -/

open Pkgexec.Field

omit [External] in
/-- `add_bool(v.has_value())`, and the fields when there is a value. -/
def optionFields {α : Type} (v : Option α) (fields : α → List Field) : List Field :=
  bool v.isSome :: v.elim [] fields

/-- `identify_layout`. -/
def ResourceLayout.fields (l : ResourceLayout) : List Field :=
  [u64 (.ofNat l.bindings.val.length)] ++
    l.bindings.val.flatMap (fun b => [u8 (enumByte b.slot.role), string b.slot.name.val,
      string b.resource.hex.val, u8 (enumByte b.access), string b.mountPoint.value.val]) ++
    [u8 (enumByte l.workingDirectory.role), string l.workingDirectory.name.val]

/-- `identify_environment`. -/
def EnvironmentPolicy.fields (e : EnvironmentPolicy) : List Field :=
  [u8 (enumByte LocalePolicy.cUtf8), u8 (enumByte TimezonePolicy.utc),
    u8 (enumByte HomePolicy.isolated), u8 (enumByte e.network), u8 (enumByte e.standardInput),
    u8 (enumByte e.standardOutput), u8 (enumByte e.standardError),
    u64 (.ofNat e.executableSearchPath.val.length)] ++
    e.executableSearchPath.val.flatMap (fun path => [string path.value.val]) ++
    [string e.homeDirectory.value.val, string e.temporaryDirectory.value.val,
      u32 e.parallelism, u32 e.fileCreationMask, optionalI64 e.sourceDateEpoch,
      u64 (.ofNat e.additionalVariables.val.length)] ++
    e.additionalVariables.val.flatMap (fun v => [string v.name.val, string v.value.val])

/-- `identify_credentials`. -/
def CredentialPolicy.fields (c : CredentialPolicy) : List Field :=
  [u64 c.userId, u64 c.groupId, u64 (.ofNat c.supplementaryGroups.val.length)] ++
    c.supplementaryGroups.val.flatMap (fun group => [u64 group]) ++ [bool c.noNewPrivileges]

/-- `identify_limits`. -/
def ResourceLimits.fields (l : ResourceLimits) : List Field :=
  [optionalU64 l.cpuTimeMilliseconds, optionalU64 l.addressSpaceBytes,
    optionalU64 l.fileSizeBytes, optionalU64 l.openFiles, optionalU64 l.processCount]

/-- A count and the guarantees. -/
def guaranteeFields (guarantees : List ExecutionGuarantee) : List Field :=
  [u64 (.ofNat guarantees.length)] ++ guarantees.flatMap (fun g => [u8 (enumByte g)])

/-- `identify_request`. -/
def ExecutionRequest.fields (q : ExecutionRequest) : List Field :=
  [u16 executionRequestSchemaVersion,
    string (External.programLanguageToString q.program.language).val,
    string q.program.contentDigest.val, u8 (enumByte q.purpose.kind)] ++
    optionFields q.purpose.action
      (fun action => [string (External.lifecycleActionToString action).val]) ++
    [string q.interpreter.hex.val, string q.rootView.hex.val,
      string q.resources.identity.hex.val, string q.environment.identity.hex.val,
      string q.credentials.identity.hex.val, string q.limits.identity.hex.val,
      u8 (enumByte q.cancellation.mode)] ++
    optionFields q.cancellation.gracePeriodMilliseconds (fun v => [u64 v]) ++
    guaranteeFields q.requiredGuarantees

/-- `identify_profile`. -/
def BackendCapabilityProfile.fields (p : BackendCapabilityProfile) : List Field :=
  [string p.backend.hex.val] ++ guaranteeFields p.guarantees

/-- `append_capture`. -/
def captureFields (capture : Option StreamCapture) : List Field :=
  optionFields capture (fun c => [u64 c.byteCount, string c.digest.hex.val])

/-- `identify_result`. -/
def ExecutionResult.fields (r : ExecutionResult) : List Field :=
  [u8 (enumByte r.status), u8 (enumByte r.startState), string r.request.identity.hex.val,
    string r.backend.identity.hex.val] ++
    optionFields r.observedInterpreter (fun i => [string i.hex.val]) ++
    optionFields r.termination (fun t => [u8 (enumByte t.kind)] ++
      optionFields t.value (fun v => [u32 v]) ++
      optionFields t.limit (fun limit => [u8 (enumByte limit)])) ++
    captureFields r.standardOutput ++ captureFields r.standardError ++
    guaranteeFields r.establishedGuarantees ++ [u8 (enumByte r.cleanup)] ++
    optionFields r.failure (fun f => [u8 (enumByte f)])

omit [External] in
theorem foldl_optionFields {α : Type} (hash : IdentityBuilder) (v : Option α)
    (fields : α → List Field) : (optionFields v fields).foldl Field.addTo hash =
      hash.addOptional v (fun hash x => (fields x).foldl Field.addTo hash) := by
  cases v <;> rfl

namespace Hashed

/-- The domain and the fields of an identity. -/
def recipe : Hashed → Option (String × List Field)
  | layout l => some ("pkgexec/resource-layout/v1", l.fields)
  | environment e => some ("pkgexec/environment-policy/v1", e.fields)
  | credentials c => some ("pkgexec/credential-policy/v1", c.fields)
  | limits l => some ("pkgexec/resource-limits/v1", l.fields)
  | request q => some ("pkgexec/execution-request/v1", q.fields)
  | profile p => some ("pkgexec/backend-capability-profile/v1", p.fields)
  | result r _ => some ("pkgexec/execution-evidence/v1", r.fields)
  | profileRecord _ => none
  | resultRecord _ _ _ => none

/-- The fields give the bytes that are hashed. -/
theorem bytes_of_recipe {h : Hashed} {domain : String} {fields : List Field}
    (hrecipe : h.recipe = some (domain, fields)) :
    (fields.foldl Field.addTo (IdentityBuilder.new domain)).preimage = h.bytes := by
  cases h with
  | layout l =>
    cases hrecipe
    simp only [ResourceLayout.fields, List.foldl_append, List.foldl_flatMap]
    rfl
  | environment e =>
    cases hrecipe
    simp only [EnvironmentPolicy.fields, List.foldl_append, List.foldl_flatMap]
    rfl
  | credentials c =>
    cases hrecipe
    simp only [CredentialPolicy.fields, List.foldl_append, List.foldl_flatMap]
    rfl
  | limits l =>
    cases hrecipe
    rfl
  | request q =>
    cases hrecipe
    simp only [ExecutionRequest.fields, guaranteeFields, List.foldl_append, List.foldl_flatMap,
      foldl_optionFields]
    rfl
  | profile p =>
    cases hrecipe
    simp only [BackendCapabilityProfile.fields, guaranteeFields, List.foldl_append,
      List.foldl_flatMap]
    rfl
  | result r built =>
    cases hrecipe
    simp only [ExecutionResult.fields, captureFields, guaranteeFields, List.foldl_append,
      List.foldl_flatMap, foldl_optionFields]
    rfl
  | profileRecord p => exact absurd hrecipe (by simp [recipe])
  | resultRecord r built encodable => exact absurd hrecipe (by simp [recipe])

/-- **The library never shows a wrong identity.**  Whichever calls libcrypto fails, and with no more
than `Libcrypto.final_digest` assumed of those that succeed, each of the seven identities is the one
of the model or is refused with `identity_failed`: given exactly when every call has succeeded. -/
theorem identity_or_refused (lib : Libcrypto W) (w : W) (h : Hashed) :
    ∀ domain fields, h.recipe = some (domain, fields) →
      ((builderLife lib domain fields w).result = .ok h.hex ↔
        ∀ c ∈ (builderLife lib domain fields w).log, c.Succeeded) ∧
      ((builderLife lib domain fields w).result ≠ .ok h.hex →
        Raises (builderLife lib domain fields w).result .identityFailed) := by
  intro domain fields hrecipe
  have hspec := lifeSpec lib domain fields w
  have hshown : ∀ hex, (builderLife lib domain fields w).result = .ok hex → hex = h.hex := by
    intro hex hok
    rw [hspec.identity hex hok, bytes_of_recipe hrecipe, h.hex_eq]
  constructor
  · rw [← hspec.succeeds]
    constructor
    · intro hok
      exact ⟨_, hok⟩
    · rintro ⟨hex, hok⟩
      rw [hok, hshown hex hok]
  · intro hne
    cases hresult : (builderLife lib domain fields w).result with
    | ok hex => exact absurd (hshown hex hresult ▸ hresult) hne
    | error e => exact ⟨e, rfl, hspec.code e hresult⟩

end Hashed

end Builder

namespace Sample

/-- A libcrypto that takes no bytes, or takes all. -/
def libcrypto (takes : Bool) : Libcrypto (Option Bytes) where
  make _ := (true, none)
  init _ := (true, some [])
  update data w := (takes, w.map (· ++ data))
  final w := (w.map (fun bytes => (External.sha256 bytes).val), none)
  free _ := none
  Holds w bytes := w = some bytes
  init_holds _ _ := rfl
  update_holds := by
    rintro _ bytes data rfl _
    rfl
  final_digest := by
    rintro _ bytes d rfl h -
    exact (Option.some.inj h).symm

/-- The domain is refused, and a context is never freed. -/
example : DomainRefused (libcrypto false) "pkgexec/resource-limits/v1" none :=
  ⟨rfl, rfl, _, rfl⟩

example : phaseAfter (builderLife (libcrypto false) "pkgexec/resource-limits/v1" [] none).log =
    some .broken := by decide

end Sample

open Sample in
/-- Where the domain is not taken, the builder is not constructed and the limits have no identity;
where every call succeeds, they have theirs. -/
theorem Hashed.identity_or_refused_domain :
    Raises (builderLife (libcrypto false) "pkgexec/resource-limits/v1" noLimits.fields none).result
        .identityFailed ∧
      (∀ c ∈ (builderLife (libcrypto true) "pkgexec/resource-limits/v1" noLimits.fields none).log,
        c.Succeeded) ∧
      (builderLife (libcrypto true) "pkgexec/resource-limits/v1" noLimits.fields none).result =
        .ok (Hashed.limits noLimits).hex := by
  have hrecipe : (Hashed.limits noLimits).recipe =
      some ("pkgexec/resource-limits/v1", noLimits.fields) := rfl
  have htaken : ∀ c ∈ (builderLife (libcrypto true) "pkgexec/resource-limits/v1" noLimits.fields
      none).log, c.Succeeded := by
    exact (lifeSpec (libcrypto true) _ _ _).succeeds.mp ⟨_, rfl⟩
  refine ⟨?_, htaken, (identity_or_refused (libcrypto true) none _ _ _ hrecipe).1.mpr htaken⟩
  refine (identity_or_refused (libcrypto false) none (.limits noLimits) _ _ hrecipe).2 ?_
  intro h
  cases h

end Pkgexec
