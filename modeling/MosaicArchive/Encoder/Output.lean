import MosaicArchive.Container.SealedFrames
import MosaicArchive.Effects.Embedding
import MosaicArchive.Effects.Emission
import MosaicArchive.Source.Bindings

/-!
What the encoders of the framed containers do besides reading their source: they seal frames, write
them to a temporary file and put it in the place of the destination (`_write_frame` and the frame of
`encode_stream_archive`, `encode_dedup_archive` and `encode_solid_archive_v2`). Every sealing is a
call, so that a run shows under which nonces it has sealed, however it ends.
-/

namespace MosaicArchive.Encoder

open CallHistory MosaicArchive.Manifest MosaicArchive.Container MosaicArchive.Source
open Routine (lift raise raiseIf onError finally')
open FixedWidth
open Utf8 (Text)

inductive OutputCall where
  /-- `ChaCha20Poly1305(key).encrypt(nonce, padded, associated_data)` -/
  | encrypt (key nonce associatedData padded : Bytes)
  /-- `destination.parent.mkdir(parents=True, exist_ok=True)` -/
  | makeParent
  /-- `tempfile.NamedTemporaryFile`, next to the destination -/
  | makeTemporary
  | write (data : Bytes)
  /-- `output.flush()`, `os.fsync` and closing -/
  | sync
  /-- `os.replace(temporary_name, destination)` -/
  | replace
  /-- `Path(temporary_name).unlink(missing_ok=True)` -/
  | removeTemporary
  /-- The compression of a lane of a solid archive: its codec and size. -/
  | compressLane (lane : ℕ)
  /-- The next bytes of the compressed lane. -/
  | readLane (lane size : ℕ)

def OutputAnswer : OutputCall → Type
  | .encrypt _ _ _ _ | .readLane _ _ => Bytes
  | .compressLane _ => ℕ × ℕ
  | _ => Unit

/-- A call answers or raises. -/
abbrev OutputReply (c : OutputCall) : Type := Except PyError (OutputAnswer c)

abbrev Call := Source.Call ⊕ OutputCall

abbrev Reply : Call → Type := Sum.elim Source.Reply OutputReply

abbrev History := CallHistory Call Reply

abbrev Run := Routine History SourceError

section

variable (env : Environment Call Reply)

def output (c : OutputCall) : Run (OutputAnswer c) := do
  let reply ← ask env (.inr c)
  lift (ofPython reply)

/-- A part that only uses the source. -/
def source {α : Type} (p : Environment Source.Call Source.Reply → Source.Run α) : Run α := embed env p

def sealWith (key nonce associatedData padded : Bytes) : Run Bytes :=
  output env (.encrypt key nonce associatedData padded)

/-- `_write_frame` -/
def putFrame (urandom : Urandom) (f : FrameFormat) (key : Bytes) (index frameType : ℕ)
    (payload : Bytes) : Run Unit := do
  let padded ← lift (ofPython (padPayload urandom payload f.paddingSize))
  let frame : FrameHeader := ⟨index, frameType, padded.length + aeadTagLength⟩
  let frameBytes ← lift (ofPython (ofOption frame.pack .struct))
  let nonce ← lift (ofPython (frameNonce f.noncePrefix index))
  let ciphertext ← sealWith env key nonce (f.globalHeader ++ frameBytes) padded
  output env (.write frameBytes)
  output env (.write ciphertext)

/-- `with session.open_file(relative) as stream: body`, where the body seals and writes, too. -/
def openFile (platform : Platform) {α : Type} (s : SourceSession) (relative : Text)
    (body : ℕ → Run α) : Run α := do
  let e ← lift (s.lookup relative)
  raiseIf e.isDirectory (.isADirectory ("source entry is a directory: " ++ e.path.text))
  let descriptor ← source env fun env => do
    requireAncestorBindings env e
    let opened ← ask env (.openFile e.path platform.noFollow)
    orRaise (identityChanged e.path) opened
  finally' (do
      source env fun env => do
        let reply ← ask env (.fstat descriptor)
        let m ← orRaise (systemError "fstat") reply
        raiseIf (isLinkOrReparse m ∨ ¬ e.identity.matchesHandle platform m) (identityChanged e.path)
      let a ← body descriptor
      source env fun env => requireHandle env platform e descriptor
        (osError ("input changed while it was read: " ++ e.path.text))
      pure a)
    (source env fun env => do
      let reply ← ask env (.close descriptor)
      orRaise (systemError "close") reply)

/-- The reads of an open file up to its end, or up to one that fails. -/
def readContent (descriptor : ℕ) : Run Content :=
  source env fun env => ask env (.read descriptor)

/-- The output is written to a temporary file; when the body and the check of the source return, the
file takes the place of the destination, and otherwise it is removed. -/
def publish {α : Type} (body : Run α) (verify : α → Run Unit) : Run α := do
  output env .makeParent
  output env .makeTemporary
  onError (do
      let a ← body
      output env .sync
      verify a
      output env .replace
      pure a)
    fun e => do
      output env .removeTemporary
      raise e

end

/-! ### What is encrypted and written -/

inductive OutputDeed where
  /-- An encryption, with the ciphertext where it succeeded. -/
  | encrypted (key nonce associatedData padded : Bytes) (ciphertext : Option Bytes)
  | wrote (data : Bytes)
  deriving DecidableEq

def outputDeeds : (Σ c : Call, Reply c) → List OutputDeed
  | ⟨.inr (.encrypt key nonce associatedData padded), reply⟩ =>
      [.encrypted key nonce associatedData padded reply.toOption]
  | ⟨.inr (.write data), .ok _⟩ => [.wrote data]
  | _ => []

/-- The key and the nonce of every encryption, whether it succeeded or not. -/
def sealings (t : List OutputDeed) : List (Bytes × Bytes) :=
  t.filterMap fun
    | .encrypted key nonce _ _ _ => some (key, nonce)
    | .wrote _ => none

/-- The encryptions that succeeded. -/
def sealed (t : List OutputDeed) : List Aead.Sealed :=
  t.filterMap fun
    | .encrypted _ nonce associatedData padded (some ciphertext) =>
        some ⟨nonce, associatedData, padded, ciphertext⟩
    | _ => none

def written (t : List OutputDeed) : Bytes :=
  t.flatMap fun
    | .wrote data => data
    | .encrypted _ _ _ _ _ => []

theorem sealings_append (t t' : List OutputDeed) : sealings (t ++ t') = sealings t ++ sealings t' :=
  List.filterMap_append

theorem sealed_append (t t' : List OutputDeed) : sealed (t ++ t') = sealed t ++ sealed t' :=
  List.filterMap_append

theorem written_append (t t' : List OutputDeed) : written (t ++ t') = written t ++ written t' :=
  List.flatMap_append

/-- What is known of the ciphertexts the system returns. -/
def Encrypts (env : Environment Call Reply) (answers : Bytes → Bytes → Bytes → Bytes → Bytes → Prop) :
    Prop :=
  ∀ before key nonce associatedData padded ciphertext,
    env before (.inr (.encrypt key nonce associatedData padded)) = .ok ciphertext →
    answers key nonce associatedData padded ciphertext

theorem encrypts_true (env : Environment Call Reply) : Encrypts env fun _ _ _ _ _ => True :=
  fun _ _ _ _ _ _ _ => trivial

/-! ### Frames -/

section

variable (answers : Bytes → Bytes → Bytes → Bytes → Bytes → Prop) (urandom : Urandom)
  (f : FrameFormat) (key : Bytes)

def encryption (index : ℕ) (x : SealedFrame) (ciphertext : Option Bytes) : OutputDeed :=
  .encrypted key (SealedFrame.nonce f index) (x.associatedData f) x.padded ciphertext

/-- The deeds of a frame: it is encrypted, and its two parts are written. -/
def frameDeeds (index : ℕ) (x : SealedFrame) : List OutputDeed :=
  [encryption f key index x (some x.ciphertext), .wrote x.frameBytes, .wrote x.ciphertext]

/-- A frame as `_write_frame` makes it, with a ciphertext of the system. -/
def FrameOk (index : ℕ) (x : SealedFrame) : Prop :=
  x.Made f index urandom ∧
    answers key (SealedFrame.nonce f index) (x.associatedData f) x.padded x.ciphertext

/-- The frames of a container, emitted under their indexes. -/
def frames : Emission OutputDeed SealedFrame where
  render := frameDeeds f key
  valid := FrameOk answers urandom f key
  broken index last := last = [] ∨
    (∃ x : SealedFrame, x.Made f index urandom ∧ last = [encryption f key index x none]) ∨
    ∃ x, FrameOk answers urandom f key index x ∧ last <+: frameDeeds f key index x
  broken_nil _ := .inl rfl

end

section

variable {answers : Bytes → Bytes → Bytes → Bytes → Bytes → Prop} {urandom : Urandom}
  {f : FrameFormat} {key : Bytes} {start : ℕ} {xs : List SealedFrame}

theorem frames_sealings (start : ℕ) (xs : List SealedFrame) :
    sealings ((frames answers urandom f key).deeds start xs) =
      (List.range' start xs.length).map fun index => (key, SealedFrame.nonce f index) := by
  induction xs generalizing start with
  | nil => rfl
  | cons x xs ih =>
      rw [Emission.deeds_cons, sealings_append, ih, List.length_cons, List.range'_succ, List.map_cons]
      rfl

theorem frames_sealed (start : ℕ) (xs : List SealedFrame) :
    sealed ((frames answers urandom f key).deeds start xs) =
      (xs.zipIdx start).map fun item => item.1.sealed f item.2 := by
  induction xs generalizing start with
  | nil => rfl
  | cons x xs ih =>
      rw [Emission.deeds_cons, sealed_append, ih, List.zipIdx_cons, List.map_cons]
      rfl

theorem frames_written (start : ℕ) (xs : List SealedFrame) :
    written ((frames answers urandom f key).deeds start xs) = xs.flatMap SealedFrame.bytes := by
  induction xs generalizing start with
  | nil => rfl
  | cons x xs ih =>
      rw [Emission.deeds_cons, written_append, ih, List.flatMap_cons]
      congr 1
      show x.frameBytes ++ (x.ciphertext ++ []) = x.bytes
      rw [List.append_nil, SealedFrame.bytes]

/-- A frame that was not finished has at most one encryption, under the nonce of its index. -/
theorem broken_sealings {index : ℕ} {last : List OutputDeed}
    (h : (frames answers urandom f key).broken index last) :
    sealings last = [] ∨ sealings last = [(key, SealedFrame.nonce f index)] ∧ index < 256 ^ 8 := by
  rcases h with rfl | ⟨x, hmade, rfl⟩ | ⟨x, hx, hprefix⟩
  · exact .inl rfl
  · exact .inr ⟨rfl, hmade.index_lt⟩
  · cases last with
    | nil => exact .inl rfl
    | cons deed last =>
        obtain ⟨rfl, hrest⟩ := List.cons_prefix_cons.mp hprefix
        have hnone : sealings last = [] := by
          obtain ⟨more, hmore⟩ := hrest
          have hboth : sealings last ++ sealings more = [] := by
            rw [← sealings_append, hmore]
            rfl
          exact (List.append_eq_nil_iff.mp hboth).1
        refine .inr ⟨?_, hx.1.index_lt⟩
        show (key, SealedFrame.nonce f index) :: sealings last = _
        rw [hnone]

/-- The encryptions that succeeded in a frame that was not finished. -/
theorem broken_sealed {index : ℕ} {last : List OutputDeed}
    (h : (frames answers urandom f key).broken index last) : sealed last = [] ∨
      ∃ x, FrameOk answers urandom f key index x ∧ sealed last = [x.sealed f index] := by
  rcases h with rfl | ⟨x, hmade, rfl⟩ | ⟨x, hx, hprefix⟩
  · exact .inl rfl
  · exact .inl rfl
  · cases last with
    | nil => exact .inl rfl
    | cons deed last =>
        obtain ⟨rfl, more, hmore⟩ := List.cons_prefix_cons.mp hprefix
        have hboth : sealed last ++ sealed more = [] := by
          rw [← sealed_append, hmore]
          rfl
        refine .inr ⟨x, hx, ?_⟩
        show x.sealed f index :: sealed last = _
        rw [(List.append_eq_nil_iff.mp hboth).1]

/-- What a run has sealed is an archive as far as it came. -/
theorem archive_of_frames {last : List OutputDeed}
    (hvalid : (frames answers urandom f key).Valid 0 xs)
    (hlast : (frames answers urandom f key).broken xs.length last) :
    ∃ a : SealedArchive, a.format = f ∧ a.Valid ∧ xs <+: a.frames ∧
      a.log = sealed ((frames answers urandom f key).deeds 0 xs ++ last) := by
  have hmade : ∀ {ys : List SealedFrame}, (frames answers urandom f key).Valid 0 ys →
      (⟨f, urandom, ys⟩ : SealedArchive).Valid := fun hys item hitem => (hys item hitem).1
  rcases broken_sealed hlast with hnone | ⟨x, hx, hone⟩
  · refine ⟨⟨f, urandom, xs⟩, rfl, hmade hvalid, List.prefix_rfl, ?_⟩
    rw [sealed_append, hnone, List.append_nil, frames_sealed, SealedArchive.log]
  · refine ⟨⟨f, urandom, xs ++ [x]⟩, rfl, hmade ?_, List.prefix_append _ _, ?_⟩
    · rw [Emission.valid_append, Emission.valid_singleton, Nat.zero_add]
      exact ⟨hvalid, hx⟩
    · rw [sealed_append, hone, frames_sealed, SealedArchive.log, List.zipIdx_append, List.map_append,
        List.zipIdx_singleton, List.map_singleton, Nat.zero_add]

end

/-! ### Nonces -/

/-- All encryptions are under one key, and no two of them under one nonce. -/
structure FreshNonces (t : List OutputDeed) : Prop where
  key : ∃ key, ∀ sealing ∈ sealings t, sealing.1 = key
  nodup : ((sealings t).map Prod.snd).Nodup

theorem FreshNonces.of_sealings_eq_nil {t : List OutputDeed} (h : sealings t = []) : FreshNonces t := by
  refine ⟨⟨[], fun sealing hmem => ?_⟩, ?_⟩
  · rw [h] at hmem
    exact absurd hmem List.not_mem_nil
  · rw [h]
    exact List.nodup_nil

/-- Where all indexes fit eight bytes, no nonce is used twice. -/
theorem freshNonces_of_range {t : List OutputDeed} {f : FrameFormat} {key : Bytes} {start count : ℕ}
    (h : sealings t = (List.range' start count).map fun index => (key, SealedFrame.nonce f index))
    (hfits : ∀ index ∈ List.range' start count, index < 256 ^ 8) : FreshNonces t := by
  refine ⟨⟨key, fun sealing hmem => ?_⟩, ?_⟩
  · rw [h] at hmem
    obtain ⟨index, -, rfl⟩ := List.mem_map.mp hmem
    rfl
  · rw [h, List.map_map]
    refine List.Nodup.map_on ?_ List.nodup_range'
    intro i hi j hj heq
    have hnat := congrArg beNat (List.append_cancel_left heq)
    rwa [beNat_beBytes_of_lt (hfits i hi), beNat_beBytes_of_lt (hfits j hj)] at hnat

section

variable {answers : Bytes → Bytes → Bytes → Bytes → Bytes → Prop} {urandom : Urandom}
  {f : FrameFormat} {key : Bytes} {start : ℕ} {xs : List SealedFrame}

theorem index_lt_of_valid (h : (frames answers urandom f key).Valid start xs) :
    ∀ index ∈ List.range' start xs.length, index < 256 ^ 8 := by
  intro index hindex
  rw [← List.zipIdx_map_snd, List.mem_map] at hindex
  obtain ⟨⟨x, index'⟩, hx, rfl⟩ := hindex
  exact (h _ hx).1.index_lt

theorem FreshNonces.cons_wrote {t : List OutputDeed} {data : Bytes} (h : FreshNonces t) :
    FreshNonces (.wrote data :: t) := ⟨h.key, h.nodup⟩

/-- The frames of a run that was broken off. -/
theorem freshNonces_of_frames {last : List OutputDeed}
    (hvalid : (frames answers urandom f key).Valid start xs)
    (hlast : (frames answers urandom f key).broken (start + xs.length) last) :
    FreshNonces ((frames answers urandom f key).deeds start xs ++ last) := by
  have hfits := index_lt_of_valid hvalid
  have hall := sealings_append ((frames answers urandom f key).deeds start xs) last
  rw [frames_sealings] at hall
  rcases broken_sealings hlast with hnone | ⟨hone, hindex⟩
  · rw [hnone, List.append_nil] at hall
    exact freshNonces_of_range hall hfits
  · rw [hone] at hall
    rw [← List.map_singleton (f := fun index => (key, SealedFrame.nonce f index)), ← List.map_append,
      ← List.range'_1_concat] at hall
    · refine freshNonces_of_range hall fun index hmem => ?_
      rw [List.range'_1_concat, List.mem_append, List.mem_singleton] at hmem
      rcases hmem with hmem | rfl
      · exact hfits index hmem
      · exact hindex

end

/-! ### What is emitted by the parts -/

section

variable {env : Environment Call Reply} {α : Type}

theorem output_quietly {c : OutputCall} (h : ∀ reply, outputDeeds ⟨.inr c, reply⟩ = []) :
    Quietly outputDeeds (output env c) fun _ => True := by
  refine Quietly.bind (Q := fun _ => True) (Quietly.ask h) fun reply _ => ?_
  exact Quietly.lift fun _ _ => trivial

theorem source_any (p : Environment Source.Call Source.Reply → Source.Run α) :
    Quietly outputDeeds (source env p) fun a => ∃ before, (p (inner env before) []).1 = .ok a := by
  have hnone : ∀ inside : CallHistory Source.Call Source.Reply,
      trace outputDeeds (lifted inside : History) = [] := by
    intro inside
    induction inside with
    | nil => rfl
    | cons e inside ih => exact ih
  refine Does.mono (Does.embed_lifted env p) ?_ ?_
  · rintro a made ⟨⟨inside, rfl⟩, ha⟩
    exact ⟨hnone inside, ha⟩
  · rintro e made ⟨inside, rfl⟩
    exact hnone inside

theorem lift_quietly {x : Except SourceError α} :
    Quietly outputDeeds (lift x : Run α) fun a => x = .ok a :=
  Quietly.lift fun _ h => h

theorem write_traces {data : Bytes} : Traces outputDeeds (output env (.write data) : Run Unit)
    (fun _ t => t = [.wrote data]) fun _ t => t = [] := by
  refine Traces.bind (Q := fun reply t => t = outputDeeds ⟨.inr (.write data), reply⟩)
    (Traces.ask fun _ => rfl) ?_ fun _ _ h => h
  rintro (e | ⟨⟩) _ rfl
  · exact Traces.raise rfl
  · exact Traces.pure rfl

theorem frameNonce_eq_ok {noncePrefix nonce : Bytes} {index : ℕ}
    (h : frameNonce noncePrefix index = .ok nonce) :
    nonce = noncePrefix ++ beBytes 8 index ∧ index < 256 ^ 8 := by
  simp only [frameNonce, Except.bind_eq_ok_iff, Except.raiseIf_eq_ok, not_not, not_le,
    exists_and_left, exists_const, pure, Except.pure, Except.ok.injEq] at h
  exact ⟨h.2.2.symm, h.2.1⟩

section

variable {answers : Bytes → Bytes → Bytes → Bytes → Bytes → Prop} (henv : Encrypts env answers)
  {urandom : Urandom} {f : FrameFormat} {key : Bytes}

include henv

theorem sealWith_traces {nonce associatedData padded : Bytes} :
    Traces outputDeeds (sealWith env key nonce associatedData padded)
      (fun ciphertext t => t = [.encrypted key nonce associatedData padded (some ciphertext)] ∧
        answers key nonce associatedData padded ciphertext)
      fun _ t => t = [.encrypted key nonce associatedData padded none] := by
  refine Traces.bind (Q := fun (reply : Except PyError Bytes) t =>
    t = [.encrypted key nonce associatedData padded reply.toOption] ∧
      ∀ ciphertext, reply = .ok ciphertext → answers key nonce associatedData padded ciphertext)
    (Traces.ask_env fun before => ⟨rfl, henv before key nonce associatedData padded⟩) ?_ fun _ _ h => h
  rintro (e | ciphertext) _ ⟨rfl, hanswer⟩
  · exact Traces.raise rfl
  · exact Traces.pure ⟨rfl, hanswer ciphertext rfl⟩

theorem putFrame_emits {index frameType : ℕ} {payload : Bytes} :
    Emits outputDeeds (frames answers urandom f key) index
      (putFrame env urandom f key index frameType payload) fun _ xs =>
        ∃ x, xs = [x] ∧ x.frameType = frameType ∧ x.payload = payload := by
  refine Emits.before lift_quietly fun padded hpadded => ?_
  refine Emits.before lift_quietly fun frameBytes hframeBytes => ?_
  refine Emits.before lift_quietly fun nonce hnonce => ?_
  obtain ⟨rfl, hindex⟩ := frameNonce_eq_ok (ofPython_eq_ok.mp hnonce)
  have hmade : ∀ ciphertext, SealedFrame.Made f index ⟨frameType, payload, padded, frameBytes, ciphertext⟩
      urandom := fun ciphertext =>
    ⟨ofPython_eq_ok.mp hpadded, ofOption_eq_ok.mp (ofPython_eq_ok.mp hframeBytes), hindex⟩
  have hbroken : ∀ {ciphertext last}, answers key (f.noncePrefix ++ beBytes 8 index)
        (f.globalHeader ++ frameBytes) padded ciphertext →
      last <+: frameDeeds f key index ⟨frameType, payload, padded, frameBytes, ciphertext⟩ →
      ∃ xs rest, (frames answers urandom f key).Valid index xs ∧
        (frames answers urandom f key).broken (index + xs.length) rest ∧
        last = (frames answers urandom f key).deeds index xs ++ rest := fun hanswer hlast =>
    ⟨[], _, Emission.valid_nil _, .inr (.inr ⟨_, ⟨hmade _, hanswer⟩, hlast⟩), rfl⟩
  refine Traces.bind (sealWith_traces henv) ?_ ?_
  · rintro ciphertext _ ⟨rfl, hanswer⟩
    let x : SealedFrame := ⟨frameType, payload, padded, frameBytes, ciphertext⟩
    refine Traces.bind write_traces ?_ ?_
    · rintro _ _ rfl
      refine Traces.mono write_traces ?_ ?_
      · rintro _ _ rfl
        exact ⟨[x], (Emission.valid_singleton _).mpr ⟨hmade ciphertext, hanswer⟩,
          (Emission.deeds_singleton (frames answers urandom f key) index x).symm, x, rfl, rfl, rfl⟩
      · rintro _ _ rfl
        exact hbroken hanswer ⟨[.wrote ciphertext], rfl⟩
    · rintro _ _ rfl
      exact hbroken hanswer ⟨[.wrote frameBytes, .wrote ciphertext], rfl⟩
  · rintro e _ rfl
    exact ⟨[], _, Emission.valid_nil _, .inr (.inl ⟨_, hmade [], rfl⟩), rfl⟩

end

theorem openFile_emits {kind : Emission OutputDeed SealedFrame} {platform : Platform}
    {s : SourceSession} {relative : Text} {start : ℕ} {body : ℕ → Run α}
    {Q : α → List SealedFrame → Prop}
    (hbody : ∀ descriptor, Emits outputDeeds kind start (body descriptor) Q) :
    Emits outputDeeds kind start (openFile env platform s relative body) Q := by
  refine Emits.before lift_quietly fun e _ => ?_
  refine Emits.guard fun _ => ?_
  refine Emits.before (source_any _) fun descriptor _ => ?_
  refine Emits.finally' ?_ (Quietly.mono (source_any _) fun _ _ => trivial)
  refine Emits.before (source_any _) fun _ _ => ?_
  refine Emits.bind (hbody descriptor) fun a xs ha => ?_
  refine Emits.before (source_any _) fun _ _ => Emits.pure ?_
  rwa [List.append_nil]

/-- What a run has emitted after the header: all frames, or frames and one that is broken off. -/
theorem publish_traces {kind : Emission OutputDeed SealedFrame} {header : Bytes} {body : Run α}
    {verify : α → Run Unit} {Q : α → List SealedFrame → Prop} {V : α → Prop}
    (hbody : Emits outputDeeds kind 0 body Q)
    (hverify : ∀ a, Quietly outputDeeds (verify a) fun _ => V a) :
    Traces outputDeeds
      (publish env (do output env (.write header); body) verify)
      (fun a t => ∃ xs, kind.Valid 0 xs ∧ t = .wrote header :: kind.deeds 0 xs ∧ Q a xs ∧ V a)
      fun _ t => t = [] ∨ ∃ xs last, kind.Valid 0 xs ∧ kind.broken xs.length last ∧
        t = .wrote header :: (kind.deeds 0 xs ++ last) := by
  have hinside : Traces outputDeeds (do
        let a ← (do output env (.write header); body)
        output env .sync
        verify a
        output env .replace
        pure a)
      (fun a t => ∃ xs, kind.Valid 0 xs ∧ t = .wrote header :: kind.deeds 0 xs ∧ Q a xs ∧ V a)
      fun _ t => t = [] ∨ ∃ xs last, kind.Valid 0 xs ∧ kind.broken xs.length last ∧
        t = .wrote header :: (kind.deeds 0 xs ++ last) := by
    have hlast : ∀ a, Quietly outputDeeds (do
        output env .sync
        verify a
        output env .replace
        pure a) fun b => b = a ∧ V a := fun a =>
      Quietly.bind (output_quietly fun _ => rfl) fun _ _ => Quietly.bind (hverify a) fun _ hv =>
        Quietly.bind (output_quietly fun _ => rfl) fun _ _ => Quietly.pure ⟨rfl, hv⟩
    have hall : Emits outputDeeds kind 0 (do
        let a ← body
        output env .sync
        verify a
        output env .replace
        pure a) fun a xs => Q a xs ∧ V a :=
      Emits.after hbody hlast fun a b xs ha hb => hb.1 ▸ ⟨ha, hb.2⟩
    have hwrite : Traces outputDeeds (output env (.write header) : Run Unit)
        (fun _ t => t = [.wrote header]) fun _ t => t = [] := write_traces
    show Traces outputDeeds ((output env (.write header) >>= fun _ => body) >>= fun a => do
        output env .sync
        verify a
        output env .replace
        pure a) _ _
    rw [Routine.bind_assoc]
    refine Traces.bind hwrite ?_ ?_
    · rintro _ _ rfl
      refine Traces.mono hall ?_ ?_
      · rintro a _ ⟨xs, hvalid, rfl, ha⟩
        exact ⟨xs, hvalid, rfl, ha⟩
      · rintro e _ ⟨xs, last, hvalid, hlast, rfl⟩
        rw [Nat.zero_add] at hlast
        exact .inr ⟨xs, last, hvalid, hlast, rfl⟩
    · rintro e _ rfl
      exact .inl rfl
  refine Quietly.before (output_quietly fun _ => rfl) (fun _ _ => ?_) fun _ => .inl rfl
  refine Quietly.before (output_quietly fun _ => rfl) (fun _ _ => ?_) fun _ => .inl rfl
  refine Traces.onError hinside fun e t ht => ?_
  have hremove : Quietly outputDeeds (do
      output env .removeTemporary
      raise e : Run α) fun _ => False :=
    Quietly.bind (output_quietly fun _ => rfl) fun _ _ => Quietly.raise
  refine Traces.mono hremove ?_ ?_
  · rintro a _ ⟨-, hfalse⟩
    exact hfalse.elim
  · rintro e' _ rfl
    rwa [List.append_nil]

end

end MosaicArchive.Encoder
