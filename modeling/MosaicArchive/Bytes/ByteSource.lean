import MosaicArchive.Bytes.FixedWidth

/-!
Reading and writing bytes through an interface that may deliver less than it
was asked for. `ByteSource` is what a consumer can observe of any reader: the
bytes still to come and how they end. A program that reads only through exact
reads and end probes behaves on every lawful reader as it does on the source
the reader stands for, so programs are reasoned about on sources only.
-/

open FixedWidth

/-- An input cut into the blocks that successive reads deliver. -/
structure Reads where
  blocks : List Bytes
  nonempty : ∀ b ∈ blocks, b ≠ []

/-- The bytes all reads deliver together. -/
def Reads.data (r : Reads) : Bytes := r.blocks.flatten

/-- A whole input delivered by at most one read. -/
def Reads.single (b : Bytes) : Reads where
  blocks := if b.isEmpty then [] else [b]
  nonempty := by
    intro c hc
    cases b with
    | nil => simp at hc
    | cons x xs =>
        have : c = x :: xs := by simpa using hc
        simp [this]

@[simp] theorem Reads.data_single (b : Bytes) : (Reads.single b).data = b := by
  cases b <;> simp [Reads.single, Reads.data]

inductive IoErrorKind
  | unexpectedEof
  | invalidData
  | other
  deriving DecidableEq, Repr

structure IoError where
  kind : IoErrorKind
  message : String
  deriving DecidableEq, Repr

/-- What is left of an input: the bytes to come, the error reading past them
gives (`none` at a proper end), and whether the end was already observed. -/
structure ByteSource where
  bytes : Bytes
  fault : Option IoError
  sawEnd : Bool
  deriving DecidableEq

/-- A complete input. -/
def ByteSource.ofBytes (b : Bytes) : ByteSource := { bytes := b, fault := none, sawEnd := false }

/-- One call of a read with room for `n` bytes. -/
class Reader (ρ : Type) where
  read : ρ → ℕ → Except IoError Bytes × ρ

def ByteSource.read (s : ByteSource) (n : ℕ) : Except IoError Bytes × ByteSource :=
  match s.bytes, s.fault with
  | [], some e => (.error e, s)
  | [], none => (.ok [], { s with sawEnd := true })
  | b :: bs, _ => (.ok ((b :: bs).take n), { s with bytes := (b :: bs).drop n })

/-- The error of an exact read that meets the end of the input. -/
def unexpectedEof : IoError := { kind := .unexpectedEof, message := "failed to fill whole buffer" }

section Reader

variable {ρ : Type} [Reader ρ]

/-- Read until `n` bytes have arrived. Every read that does not end the loop
delivers at least one byte, so `n` rounds are enough. -/
def readFullyLoop : ℕ → ρ → ℕ → Except IoError Bytes × ρ
  | _, r, 0 => (.ok [], r)
  | 0, r, _ + 1 => (.error unexpectedEof, r)
  | fuel + 1, r, n + 1 =>
      match Reader.read r (n + 1) with
      | (.error e, r') => (.error e, r')
      | (.ok [], r') => (.error unexpectedEof, r')
      | (.ok (b :: bs), r') =>
          match readFullyLoop fuel r' (n - bs.length) with
          | (.error e, r'') => (.error e, r'')
          | (.ok rest, r'') => (.ok (b :: bs ++ rest), r'')

def readFully (r : ρ) (n : ℕ) : Except IoError Bytes × ρ := readFullyLoop n r n

theorem readFully_keeps {P : ρ → Prop} (hread : ∀ r n, P r → P (Reader.read r n).2) {r : ρ}
    (h : P r) (n : ℕ) : P (readFully r n).2 := by
  have hloop : ∀ fuel r n, P r → P (readFullyLoop fuel r n).2 := by
    intro fuel
    induction fuel with
    | zero => intro r n h; cases n <;> exact h
    | succ fuel ih =>
        intro r n h
        cases n with
        | zero => exact h
        | succ n =>
            have hnext := hread r (n + 1) h
            rw [readFullyLoop]
            rcases hr : (Reader.read r (n + 1) : Except IoError Bytes × ρ) with ⟨e | _ | ⟨b, bs⟩, r'⟩
            · rwa [hr] at hnext
            · rwa [hr] at hnext
            · rw [hr] at hnext
              have hrest := ih r' (n - bs.length) hnext
              dsimp only
              rcases hl : readFullyLoop fuel r' (n - bs.length) with ⟨e | rest, r''⟩
              · rwa [hl] at hrest
              · rwa [hl] at hrest
  exact hloop n r n h

end Reader

/-- A reader whose reads deliver the bytes of a source in order, at least one
byte at a time. After an error nothing is promised. -/
class LawfulReader (ρ : Type) extends Reader ρ where
  rest : ρ → ByteSource
  read_error : ∀ r n e r', 0 < n → read r n = (.error e, r') →
    (rest r).bytes = [] ∧ (rest r).fault = some e
  read_end : ∀ r n r', 0 < n → read r n = (.ok [], r') →
    (rest r).bytes = [] ∧ (rest r).fault = none ∧ rest r' = { rest r with sawEnd := true }
  read_some : ∀ r n b bs r', 0 < n → read r n = (.ok (b :: bs), r') →
    bs.length < n ∧ rest r = { rest r' with bytes := b :: bs ++ (rest r').bytes }

/-- The exact read of a source: all or nothing. -/
def ByteSource.readExact (s : ByteSource) (n : ℕ) : Except IoError Bytes × ByteSource :=
  if n ≤ s.bytes.length then (.ok (s.bytes.take n), { s with bytes := s.bytes.drop n })
  else (.error (s.fault.getD unexpectedEof), { s with bytes := [] })

/-- Up to one byte, to see whether anything is left. -/
def ByteSource.probe (s : ByteSource) : Except IoError Bytes × ByteSource := s.read 1

section LawfulReader

variable {ρ : Type} [LawfulReader ρ]

open LawfulReader

theorem readFullyLoop_rest (fuel : ℕ) (r : ρ) (n : ℕ) (hn : n ≤ fuel) :
    (readFullyLoop fuel r n).1 = ((rest r).readExact n).1 ∧
      ∀ b, (readFullyLoop fuel r n).1 = .ok b →
        rest (readFullyLoop fuel r n).2 = ((rest r).readExact n).2 := by
  induction fuel generalizing r n with
  | zero =>
      obtain rfl : n = 0 := by omega
      simp [readFullyLoop, ByteSource.readExact]
  | succ fuel ih =>
      cases n with
      | zero => simp [readFullyLoop, ByteSource.readExact]
      | succ n =>
          match hread : (Reader.read r (n + 1) : Except IoError Bytes × ρ) with
          | (.error e, r') =>
              obtain ⟨hbytes, hfault⟩ := read_error r (n + 1) e r' (by omega) hread
              simp [readFullyLoop, hread, ByteSource.readExact, hbytes, hfault]
          | (.ok [], r') =>
              obtain ⟨hbytes, hfault, -⟩ := read_end r (n + 1) r' (by omega) hread
              simp [readFullyLoop, hread, ByteSource.readExact, hbytes, hfault]
          | (.ok (b :: bs), r') =>
              obtain ⟨hlen, hrest⟩ := read_some r (n + 1) b bs r' (by omega) hread
              obtain ⟨hres, hstate⟩ := ih r' (n - bs.length) (by omega)
              have htake : n + 1 = (b :: bs).length + (n - bs.length) := by
                simp only [List.length_cons]
                omega
              have hroom : n + 1 ≤ (b :: bs ++ (rest r').bytes).length ↔
                  n - bs.length ≤ (rest r').bytes.length := by
                simp only [List.length_append, List.length_cons]
                omega
              rw [hrest]
              by_cases hfit : n - bs.length ≤ (rest r').bytes.length
              · have hok : (readFullyLoop fuel r' (n - bs.length)).1 =
                    .ok ((rest r').bytes.take (n - bs.length)) := by
                  rw [hres, ByteSource.readExact, if_pos hfit]
                have hnext := hstate _ hok
                rw [ByteSource.readExact, if_pos hfit] at hnext
                match hloop : readFullyLoop fuel r' (n - bs.length) with
                | (.error e, r'') => simp [hloop] at hok
                | (.ok b', r'') =>
                    have hb' : b' = (rest r').bytes.take (n - bs.length) := by
                      simpa [hloop] using hok
                    rw [hloop] at hnext
                    simp only [readFullyLoop, hread, hloop, ByteSource.readExact]
                    rw [if_pos (hroom.mpr hfit), htake, List.take_length_add_append,
                      List.drop_length_add_append]
                    exact ⟨by rw [hb'], fun _ _ => by simpa using hnext⟩
              · have herr : (readFullyLoop fuel r' (n - bs.length)).1 =
                    .error ((rest r').fault.getD unexpectedEof) := by
                  rw [hres, ByteSource.readExact, if_neg hfit]
                match hloop : readFullyLoop fuel r' (n - bs.length) with
                | (.ok b', r'') => simp [hloop] at herr
                | (.error e, r'') =>
                    have he : e = (rest r').fault.getD unexpectedEof := by
                      simpa [hloop] using herr
                    simp only [readFullyLoop, hread, hloop, ByteSource.readExact]
                    rw [if_neg (fun h => hfit (hroom.mp h))]
                    simp [he]

theorem readFully_rest (r : ρ) (n : ℕ) :
    (readFully r n).1 = ((rest r).readExact n).1 ∧
      ∀ b, (readFully r n).1 = .ok b → rest (readFully r n).2 = ((rest r).readExact n).2 :=
  readFullyLoop_rest n r n le_rfl

theorem probe_rest (r : ρ) :
    (Reader.read r 1).1 = (rest r).probe.1 ∧
      ∀ b, (Reader.read r 1 : Except IoError Bytes × ρ).1 = .ok b →
        rest (Reader.read r 1).2 = (rest r).probe.2 := by
  match hread : (Reader.read r 1 : Except IoError Bytes × ρ) with
  | (.error e, r') =>
      obtain ⟨hbytes, hfault⟩ := read_error r 1 e r' (by omega) hread
      simp [ByteSource.probe, ByteSource.read, hbytes, hfault]
  | (.ok [], r') =>
      obtain ⟨hbytes, hfault, hrest⟩ := read_end r 1 r' (by omega) hread
      simp [ByteSource.probe, ByteSource.read, hbytes, hfault, hrest]
  | (.ok (b :: bs), r') =>
      obtain ⟨hlen, hrest⟩ := read_some r 1 b bs r' (by omega) hread
      obtain rfl : bs = [] := List.eq_nil_of_length_eq_zero (by omega)
      rw [hrest]
      simp [ByteSource.probe, ByteSource.read]

/-- What reads of the given sizes deliver of some bytes: blocks in order, and
nothing once all of them were delivered. -/
inductive Delivers : Bytes → List ℕ → List Bytes → Prop where
  | done (bytes : Bytes) : Delivers bytes [] []
  | block {n : ℕ} {ns : List ℕ} {b bytes : Bytes} {blocks : List Bytes} (hnonempty : b ≠ [])
      (hroom : b.length ≤ n) (h : Delivers bytes ns blocks) :
      Delivers (b ++ bytes) (n :: ns) (b :: blocks)
  | ended {n : ℕ} {ns : List ℕ} {blocks : List Bytes} (h : Delivers [] ns blocks) :
      Delivers [] (n :: ns) ([] :: blocks)

/-- Enough reads deliver everything. -/
theorem Delivers.flatten_eq {bytes : Bytes} {ns : List ℕ} {blocks : List Bytes}
    (h : Delivers bytes ns blocks) (hlength : bytes.length < ns.length) :
    blocks.flatten = bytes := by
  have hend : ∀ {ns : List ℕ} {blocks : List Bytes} {bytes : Bytes}, Delivers bytes ns blocks →
      bytes = [] → blocks.flatten = [] := by
    intro ns blocks bytes h
    induction h with
    | done => intro _; rfl
    | block hnonempty _ _ _ => intro hnil; exact absurd (List.append_eq_nil_iff.mp hnil).1 hnonempty
    | ended _ ih => intro _; simpa using ih rfl
  induction h with
  | done => simp at hlength
  | block hnonempty _ _ ih =>
      have hpos := List.length_pos_iff.mpr hnonempty
      rw [List.length_append, List.length_cons] at hlength
      rw [List.flatten_cons, ih (by omega)]
  | ended h _ => simpa using hend h rfl

/-- Reads of the given sizes, one after another. -/
def readSequence {ρ : Type} [Reader ρ] : ρ → List ℕ → List (Except IoError Bytes)
  | _, [] => []
  | r, n :: ns => (Reader.read r n).1 :: readSequence (Reader.read r n).2 ns

theorem readSequence_delivers (ns : List ℕ) (hpos : ∀ n ∈ ns, 0 < n) (r : ρ)
    (hfault : (rest r).fault = none) :
    ∃ blocks : List Bytes, readSequence r ns = blocks.map .ok ∧
      Delivers (rest r).bytes ns blocks := by
  induction ns generalizing r with
  | nil => exact ⟨[], rfl, .done _⟩
  | cons n ns ih =>
      have hn := hpos n (by simp)
      have hrestpos : ∀ m ∈ ns, 0 < m := fun m hm => hpos m (List.mem_cons_of_mem n hm)
      rcases hread : (Reader.read r n : Except IoError Bytes × ρ) with ⟨e | _ | ⟨b, bs⟩, r'⟩
      · obtain ⟨-, hfailed⟩ := read_error r n e r' hn hread
        rw [hfault] at hfailed
        cases hfailed
      · obtain ⟨hbytes, -, hnext⟩ := read_end r n r' hn hread
        obtain ⟨blocks, hblocks, hdelivers⟩ := ih hrestpos r' (by rw [hnext]; exact hfault)
        rw [hnext] at hdelivers
        dsimp only at hdelivers
        rw [hbytes] at hdelivers ⊢
        exact ⟨[] :: blocks, by rw [readSequence, hread, hblocks]; rfl, .ended hdelivers⟩
      · obtain ⟨hlength, hnext⟩ := read_some r n b bs r' hn hread
        obtain ⟨blocks, hblocks, hdelivers⟩ := ih hrestpos r' (by rw [hnext] at hfault; exact hfault)
        refine ⟨(b :: bs) :: blocks, by rw [readSequence, hread, hblocks]; rfl, ?_⟩
        rw [hnext]
        exact .block (by simp) hlength hdelivers

end LawfulReader

/-! ### Programs over a reader and a writer -/

/-- A computation that reads exactly, probes for the end, and writes. A read
error ends it. -/
inductive IoProgram (ε α : Type) where
  | ret (a : α)
  | fail (e : ε)
  | readExact (n : ℕ) (onError : IoError → ε) (next : Bytes → IoProgram ε α)
  | probe (onError : IoError → ε) (next : Bytes → IoProgram ε α)
  | write (b : Bytes) (next : IoProgram ε α)

/-- How a program ended: its result, everything it wrote, and the reader. -/
structure IoRun (ρ ε α : Type) where
  result : Except ε α
  written : List Bytes
  reader : ρ

namespace IoProgram

variable {ε α β ρ : Type}

protected def bind : IoProgram ε α → (α → IoProgram ε β) → IoProgram ε β
  | ret a, f => f a
  | fail e, _ => fail e
  | readExact n onError next, f => readExact n onError fun b => (next b).bind f
  | probe onError next, f => probe onError fun b => (next b).bind f
  | write b next, f => write b (next.bind f)

instance : Monad (IoProgram ε) where
  pure := ret
  bind := IoProgram.bind

def throw (e : ε) : IoProgram ε α := fail e

/-- Stop with an error when a check does not hold. -/
def require (p : Prop) [Decidable p] (e : ε) : IoProgram ε Unit :=
  if p then ret () else fail e

def ofExcept : Except ε α → IoProgram ε α
  | .ok a => ret a
  | .error e => fail e

def ofOption (x : Option α) (e : ε) : IoProgram ε α :=
  match x with
  | some a => ret a
  | none => fail e

/-- Run on a concrete reader. -/
def run [Reader ρ] : IoProgram ε α → ρ → IoRun ρ ε α
  | ret a, r => { result := .ok a, written := [], reader := r }
  | fail e, r => { result := .error e, written := [], reader := r }
  | readExact n onError next, r =>
      match readFully r n with
      | (.error e, r') => { result := .error (onError e), written := [], reader := r' }
      | (.ok b, r') => (next b).run r'
  | probe onError next, r =>
      match Reader.read r 1 with
      | (.error e, r') => { result := .error (onError e), written := [], reader := r' }
      | (.ok b, r') => (next b).run r'
  | write b next, r => { next.run r with written := b :: (next.run r).written }

/-- What every read of a reader keeps holds of it after a run. -/
theorem run_keeps [Reader ρ] {P : ρ → Prop} (hread : ∀ r n, P r → P (Reader.read r n).2)
    (p : IoProgram ε α) {r : ρ} (h : P r) : P (p.run r).reader := by
  induction p generalizing r with
  | ret a => exact h
  | fail e => exact h
  | readExact n onError next ih =>
      have hnext := readFully_keeps hread h n
      rw [run]
      rcases hr : readFully r n with ⟨e | b, r'⟩
      · rwa [hr] at hnext
      · rw [hr] at hnext
        exact ih b hnext
  | probe onError next ih =>
      have hnext := hread r 1 h
      rw [run]
      rcases hr : (Reader.read r 1 : Except IoError Bytes × ρ) with ⟨e | b, r'⟩
      · rwa [hr] at hnext
      · rw [hr] at hnext
        exact ih b hnext
  | write b next ih => exact ih h

/-- Run on a source. -/
def eval : IoProgram ε α → ByteSource → IoRun ByteSource ε α
  | ret a, s => { result := .ok a, written := [], reader := s }
  | fail e, s => { result := .error e, written := [], reader := s }
  | readExact n onError next, s =>
      match s.readExact n with
      | (.error e, s') => { result := .error (onError e), written := [], reader := s' }
      | (.ok b, s') => (next b).eval s'
  | probe onError next, s =>
      match s.probe with
      | (.error e, s') => { result := .error (onError e), written := [], reader := s' }
      | (.ok b, s') => (next b).eval s'
  | write b next, s => { next.eval s with written := b :: (next.eval s).written }

@[simp] theorem bind_eq (p : IoProgram ε α) (f : α → IoProgram ε β) : p >>= f = p.bind f := rfl

@[simp] theorem pure_eq (a : α) : (pure a : IoProgram ε α) = ret a := rfl

@[simp] theorem ret_bind (a : α) (f : α → IoProgram ε β) : (ret a).bind f = f a := rfl

@[simp] theorem fail_bind (e : ε) (f : α → IoProgram ε β) : (fail e).bind f = fail e := rfl

/-- A lawful reader cannot be told from the source it stands for. -/
theorem run_rest [LawfulReader ρ] (p : IoProgram ε α) (r : ρ) :
    (p.run r).result = (p.eval (LawfulReader.rest r)).result ∧
      (p.run r).written = (p.eval (LawfulReader.rest r)).written ∧
      ∀ a, (p.run r).result = .ok a →
        LawfulReader.rest (p.run r).reader = (p.eval (LawfulReader.rest r)).reader := by
  induction p generalizing r with
  | ret a => simp [run, eval]
  | fail e => simp [run, eval]
  | readExact n onError next ih =>
      obtain ⟨hres, hstate⟩ := readFully_rest r n
      match hr : readFully r n, hs : (LawfulReader.rest r).readExact n with
      | (.error e, r'), (.error e', s') =>
          obtain rfl : e = e' := by simpa [hr, hs] using hres
          simp [run, eval, hr, hs]
      | (.error e, r'), (.ok b, s') => simp [hr, hs] at hres
      | (.ok b, r'), (.error e, s') => simp [hr, hs] at hres
      | (.ok b, r'), (.ok b', s') =>
          obtain rfl : b = b' := by simpa [hr, hs] using hres
          have hrest : LawfulReader.rest r' = s' := by simpa [hr, hs] using hstate b (by rw [hr])
          simpa [run, eval, hr, hs, hrest] using ih b r'
  | probe onError next ih =>
      obtain ⟨hres, hstate⟩ := probe_rest r
      match hr : (Reader.read r 1 : Except IoError Bytes × ρ), hs : (LawfulReader.rest r).probe with
      | (.error e, r'), (.error e', s') =>
          obtain rfl : e = e' := by simpa [hr, hs] using hres
          simp [run, eval, hr, hs]
      | (.error e, r'), (.ok b, s') => simp [hr, hs] at hres
      | (.ok b, r'), (.error e, s') => simp [hr, hs] at hres
      | (.ok b, r'), (.ok b', s') =>
          obtain rfl : b = b' := by simpa [hr, hs] using hres
          have hrest : LawfulReader.rest r' = s' := by simpa [hr, hs] using hstate b (by rw [hr])
          simpa [run, eval, hr, hs, hrest] using ih b r'
  | write b next ih =>
      obtain ⟨hres, hwritten, hstate⟩ := ih r
      exact ⟨hres, by simp [run, eval, hwritten], hstate⟩

/-! #### Evaluation on a source -/

@[simp] theorem eval_ret (a : α) (s : ByteSource) :
    (ret a : IoProgram ε α).eval s = { result := .ok a, written := [], reader := s } := rfl

@[simp] theorem eval_fail (e : ε) (s : ByteSource) :
    (fail e : IoProgram ε α).eval s = { result := .error e, written := [], reader := s } := rfl

@[simp] theorem eval_write (b : Bytes) (p : IoProgram ε α) (s : ByteSource) :
    (write b p).eval s = { p.eval s with written := b :: (p.eval s).written } := rfl

/-- A program followed by another: the second starts where the first ended. -/
theorem eval_bind (p : IoProgram ε α) (f : α → IoProgram ε β) (s : ByteSource) :
    (p.bind f).eval s =
      match (p.eval s).result with
      | .error e => { result := .error e, written := (p.eval s).written, reader := (p.eval s).reader }
      | .ok a =>
          { (f a).eval (p.eval s).reader with
            written := (p.eval s).written ++ ((f a).eval (p.eval s).reader).written } := by
  induction p generalizing s with
  | ret a => rfl
  | fail e => rfl
  | readExact n onError next ih =>
      match hs : s.readExact n with
      | (.error e, s') => simp [IoProgram.bind, eval, hs]
      | (.ok b, s') => simp [IoProgram.bind, eval, hs, ih]
  | probe onError next ih =>
      match hs : s.probe with
      | (.error e, s') => simp [IoProgram.bind, eval, hs]
      | (.ok b, s') => simp [IoProgram.bind, eval, hs, ih]
  | write b next ih =>
      simp only [IoProgram.bind, eval, ih]
      cases (next.eval s).result <;> rfl

theorem eval_readExact_append (n : ℕ) (onError : IoError → ε) (next : Bytes → IoProgram ε α)
    {field : Bytes} (h : field.length = n) (rest : Bytes) (fault : Option IoError) (sawEnd : Bool) :
    (readExact n onError next).eval ⟨field ++ rest, fault, sawEnd⟩ =
      (next field).eval ⟨rest, fault, sawEnd⟩ := by
  subst h
  simp [eval, ByteSource.readExact]

theorem eval_readExact_short (n : ℕ) (onError : IoError → ε) (next : Bytes → IoProgram ε α)
    {s : ByteSource} (h : s.bytes.length < n) :
    (readExact n onError next).eval s =
      { result := .error (onError (s.fault.getD unexpectedEof)), written := [],
        reader := { s with bytes := [] } } := by
  simp [eval, ByteSource.readExact, Nat.not_le.mpr h]

theorem eval_readExact_le (n : ℕ) (onError : IoError → ε) (next : Bytes → IoProgram ε α)
    {s : ByteSource} (h : n ≤ s.bytes.length) :
    (readExact n onError next).eval s =
      (next (s.bytes.take n)).eval { s with bytes := s.bytes.drop n } := by
  simp [eval, ByteSource.readExact, h]

/-- A source cut short by a fault: a program does what it does on the whole
source, or fails having written a part of what it writes there. -/
theorem eval_truncated (p : IoProgram ε α) {s t : ByteSource} {e : IoError}
    (hpre : t.bytes <+: s.bytes) (hfault : t.fault = some e) :
    ((∃ err, (p.eval t).result = .error err) ∧ (p.eval t).written <+: (p.eval s).written) ∨
      ((p.eval t).result = (p.eval s).result ∧ (p.eval t).written = (p.eval s).written) := by
  induction p generalizing s t with
  | ret a => exact Or.inr ⟨rfl, rfl⟩
  | fail err => exact Or.inr ⟨rfl, rfl⟩
  | readExact n onError next ih =>
      rcases Nat.lt_or_ge t.bytes.length n with hshort | hlong
      · rw [eval_readExact_short n onError next hshort]
        exact Or.inl ⟨⟨_, rfl⟩, List.nil_prefix⟩
      · have hlen := hpre.length_le
        rw [eval_readExact_le n onError next hlong,
          eval_readExact_le n onError next (hlong.trans hlen)]
        obtain ⟨tail, htail⟩ := hpre
        have htake : t.bytes.take n = s.bytes.take n := by
          rw [← htail, List.take_append_of_le_length hlong]
        rw [htake]
        refine ih _ ⟨tail, ?_⟩ hfault
        rw [← htail, List.drop_append_of_le_length hlong]
  | probe onError next ih =>
      match ht : t.bytes with
      | [] =>
          have : t.probe = (.error e, t) := by simp [ByteSource.probe, ByteSource.read, ht, hfault]
          exact Or.inl ⟨⟨onError e, by simp [eval, this]⟩, by simp [eval, this]⟩
      | b :: bs =>
          obtain ⟨tail, htail⟩ := hpre
          have hs : s.bytes = b :: (bs ++ tail) := by simp [← htail, ht]
          have hpt : t.probe = (.ok [b], { t with bytes := bs }) := by
            simp [ByteSource.probe, ByteSource.read, ht]
          have hps : s.probe = (.ok [b], { s with bytes := bs ++ tail }) := by
            simp [ByteSource.probe, ByteSource.read, hs]
          simp only [eval, hpt, hps]
          exact ih [b] ⟨tail, rfl⟩ hfault
  | write b next ih =>
      rcases ih hpre hfault with ⟨herr, hpre⟩ | ⟨hres, hwritten⟩
      · exact Or.inl ⟨herr, (List.prefix_cons_inj b).mpr hpre⟩
      · exact Or.inr ⟨hres, by simp [eval, hwritten]⟩

end IoProgram

/-! ### A reader over blocks -/

/-- A reader over an input that arrives in blocks: a read never crosses a
block boundary. -/
structure BlockReader where
  reads : Reads
  ended : Bool

namespace BlockReader

def new (reads : Reads) : BlockReader := { reads := reads, ended := false }

/-- The blocks after `n` bytes of the first were taken. -/
def advance (b : Bytes) (bs : List Bytes) (n : ℕ) : List Bytes :=
  if (b.drop n).isEmpty then bs else b.drop n :: bs

theorem advance_nonempty {b : Bytes} {bs : List Bytes} {n : ℕ}
    (h : ∀ c ∈ b :: bs, c ≠ []) : ∀ c ∈ advance b bs n, c ≠ [] := by
  intro c hc
  unfold advance at hc
  split at hc
  · exact h c (by simp [hc])
  · rename_i hne
    rcases List.mem_cons.mp hc with rfl | hc
    · simpa using hne
    · exact h c (by simp [hc])

theorem advance_flatten (b : Bytes) (bs : List Bytes) (n : ℕ) :
    (advance b bs n).flatten = b.drop n ++ bs.flatten := by
  unfold advance
  split <;> simp_all

def read (r : BlockReader) (n : ℕ) : Except IoError Bytes × BlockReader :=
  match h : r.reads.blocks with
  | [] => (.ok [], { r with ended := true })
  | b :: bs =>
      (.ok (b.take n),
        { r with reads := ⟨advance b bs n, advance_nonempty (h ▸ r.reads.nonempty)⟩ })

def rest (r : BlockReader) : ByteSource :=
  { bytes := r.reads.data, fault := none, sawEnd := r.ended }

theorem read_eq (r : BlockReader) (n : ℕ) :
    (r.reads.blocks = [] ∧ r.read n = (.ok [], { r with ended := true })) ∨
      ∃ b bs h, r.reads.blocks = b :: bs ∧
        r.read n = (.ok (b.take n), { r with reads := ⟨advance b bs n, h⟩ }) := by
  unfold read
  split
  · rename_i h
    exact Or.inl ⟨h, rfl⟩
  · rename_i b bs h
    exact Or.inr ⟨b, bs, advance_nonempty (h ▸ r.reads.nonempty), h, rfl⟩

instance : LawfulReader BlockReader where
  read := read
  rest := rest
  read_error r n e r' hn h := by
    rcases read_eq r n with ⟨-, hread⟩ | ⟨b, bs, _, -, hread⟩ <;> rw [hread] at h <;> simp at h
  read_end r n r' hn h := by
    rcases read_eq r n with ⟨hblocks, hread⟩ | ⟨b, bs, _, hblocks, hread⟩
    · obtain ⟨-, rfl⟩ := Prod.mk.inj (hread.symm.trans h)
      simp [rest, Reads.data, hblocks]
    · have hb : b ≠ [] := r.reads.nonempty b (by simp [hblocks])
      have htake := congrArg Prod.fst (hread.symm.trans h)
      simp only [Except.ok.injEq] at htake
      rcases List.take_eq_nil_iff.mp htake with h0 | h0
      · omega
      · exact absurd h0 hb
  read_some r n b bs r' hn h := by
    rcases read_eq r n with ⟨hblocks, hread⟩ | ⟨c, cs, _, hblocks, hread⟩
    · exact absurd (congrArg Prod.fst (hread.symm.trans h)) (by simp)
    · obtain ⟨htake, rfl⟩ := Prod.mk.inj (hread.symm.trans h)
      simp only [Except.ok.injEq] at htake
      have hlen := congrArg List.length htake
      simp only [List.length_take, List.length_cons] at hlen
      refine ⟨by omega, ?_⟩
      simp [rest, Reads.data, hblocks, advance_flatten, ← List.append_assoc, ← htake]

end BlockReader
