import MosaicArchive.Modes.Tokens

/-!
The greedy parse of the two LZ modes: the positions of every three bytes seen so
far, the longest match among the latest of them, and the loop that copies a
match or puts a byte aside. What the parse emits leads to the block, whatever
lists of candidates the index has kept.
-/

namespace MosaicArchive.Modes

open FixedWidth
open Manifest (PyError)

/-- What the two parsers differ in. -/
structure MatchRule where
  minimumMatch : ℕ
  maximumMatch : ℕ
  maximumDistance : ℕ
  candidateLimit : ℕ
  /-- The comparison of the match at a candidate, at the given index. -/
  agrees : Bytes → (position candidate index : ℕ) → Bool
  /-- The tokens of the bytes put aside. -/
  emitLiterals : Bytes → List Token
  /-- How many bytes put aside are emitted at once. -/
  flushAt : Option ℕ

/-! ### The index -/

abbrev Positions := Bytes → List ℕ

/-- The last `n` entries. -/
def lastEntries (n : ℕ) (entries : List ℕ) : List ℕ := entries.drop (entries.length - n)

/-- `index_at`: the position is added under its three bytes; a long list is cut. -/
def indexAt (rule : MatchRule) (block : Bytes) (positions : Positions) (index : ℕ) : Positions :=
  if index + 3 ≤ block.length then
    let key := slice block index (index + 3)
    let entries := positions key ++ [index]
    let kept := if rule.candidateLimit * 4 < entries.length then
      lastEntries (rule.candidateLimit * 2) entries else entries
    Function.update positions key kept
  else positions

/-- `for consumed in range(length): index_at(position + consumed)` -/
def indexRange (rule : MatchRule) (block : Bytes) (positions : Positions) (position length : ℕ) :
    Positions :=
  (List.range length).foldl (fun positions consumed =>
    indexAt rule block positions (position + consumed)) positions

/-- Every entry is an earlier position of its three bytes. -/
def Indexed (block : Bytes) (position : ℕ) (positions : Positions) : Prop :=
  ∀ key, ∀ candidate ∈ positions key,
    candidate < position ∧ slice block candidate (candidate + 3) = key

theorem mem_lastEntries {n candidate : ℕ} {entries : List ℕ} (h : candidate ∈ lastEntries n entries) :
    candidate ∈ entries := List.mem_of_mem_drop h

theorem indexed_indexAt {rule : MatchRule} {block : Bytes} {position index : ℕ}
    {positions : Positions} (h : Indexed block position positions) (hindex : index < position) :
    Indexed block position (indexAt rule block positions index) := by
  unfold indexAt
  split
  swap
  · exact h
  intro key candidate hcandidate
  by_cases hkey : key = slice block index (index + 3)
  · subst hkey
    have hmem : candidate ∈ positions (slice block index (index + 3)) ++ [index] := by
      simp only [Function.update_self] at hcandidate
      split at hcandidate
      · exact mem_lastEntries hcandidate
      · exact hcandidate
    rcases List.mem_append.mp hmem with hmem | hmem
    · exact h _ candidate hmem
    · obtain rfl := List.mem_singleton.mp hmem
      exact ⟨hindex, rfl⟩
  · rw [Function.update_of_ne hkey] at hcandidate
    exact h key candidate hcandidate

theorem Indexed.mono {block : Bytes} {position position' : ℕ} {positions : Positions}
    (h : Indexed block position positions) (hle : position ≤ position') :
    Indexed block position' positions := fun key candidate hcandidate =>
  ⟨(h key candidate hcandidate).1.trans_le hle, (h key candidate hcandidate).2⟩

theorem indexed_indexRange {rule : MatchRule} {block : Bytes} {position length : ℕ}
    {positions : Positions} (h : Indexed block position positions) :
    Indexed block (position + length) (indexRange rule block positions position length) := by
  unfold indexRange
  induction length with
  | zero => exact h
  | succ length ih =>
      rw [List.range_succ, List.foldl_append]
      exact indexed_indexAt (ih.mono (Nat.le_succ _)) (Nat.lt_succ_self _)

/-! ### The longest match -/

/-- `while length < limit and …: length += 1` -/
def extendMatch (agrees : ℕ → Bool) (limit : ℕ) : ℕ → ℕ → ℕ
  | 0, length => length
  | fuel + 1, length =>
      if length < limit ∧ agrees length then extendMatch agrees limit fuel (length + 1) else length

/-- The loop over the candidates, with the best length and distance so far. -/
def longestMatch (rule : MatchRule) (block : Bytes) (position : ℕ) :
    List ℕ → ℕ × ℕ → ℕ × ℕ
  | [], best => best
  | candidate :: candidates, best =>
      let distance := position - candidate
      if distance = 0 ∨ rule.maximumDistance < distance then
        longestMatch rule block position candidates best
      else
        let limit := min rule.maximumMatch (block.length - position)
        let length := extendMatch (rule.agrees block position candidate) limit (limit - 3) 3
        if best.1 < length then
          if length = limit then (length, distance)
          else longestMatch rule block position candidates (length, distance)
        else longestMatch rule block position candidates best

/-- The best length and distance at a position. -/
def findMatch (rule : MatchRule) (block : Bytes) (positions : Positions) (position : ℕ) : ℕ × ℕ :=
  if position + rule.minimumMatch ≤ block.length then
    let candidates := positions (slice block position (position + 3))
    longestMatch rule block position (lastEntries rule.candidateLimit candidates).reverse (0, 0)
  else (0, 0)

/-- What makes the parse right: a match has room for its first three bytes, and the
comparison finds out whether the bytes repeat. -/
structure MatchRule.Sound (rule : MatchRule) : Prop where
  minimum : 3 ≤ rule.minimumMatch
  maximum : 3 ≤ rule.maximumMatch
  repeats : ∀ {block : Bytes} {position candidate length : ℕ}, candidate < position →
    (∀ i < 3, block[candidate + i]? = block[position + i]?) →
    (∀ i, 3 ≤ i → i < length → rule.agrees block position candidate i = true) →
    Repeats block position (position - candidate) length

/-- A match that may be emitted. -/
structure IsMatch (rule : MatchRule) (block : Bytes) (position length distance : ℕ) : Prop where
  distance_pos : 1 ≤ distance
  distance_le : distance ≤ position
  distance_max : distance ≤ rule.maximumDistance
  length_max : length ≤ rule.maximumMatch
  length_le : position + length ≤ block.length
  repeats : Repeats block position distance length

theorem extendMatch_spec {agrees : ℕ → Bool} {limit fuel length : ℕ} (hle : length ≤ limit) :
    length ≤ extendMatch agrees limit fuel length ∧ extendMatch agrees limit fuel length ≤ limit ∧
      ∀ i, length ≤ i → i < extendMatch agrees limit fuel length → agrees i = true := by
  induction fuel generalizing length with
  | zero => exact ⟨le_rfl, hle, fun i hi hlt => absurd hlt (Nat.not_lt.mpr hi)⟩
  | succ fuel ih =>
      unfold extendMatch
      split_ifs with h
      · obtain ⟨hge, hlimit, hagrees⟩ := ih (Nat.succ_le_of_lt h.1)
        refine ⟨(Nat.le_succ _).trans hge, hlimit, fun i hi hlt => ?_⟩
        rcases Nat.eq_or_lt_of_le hi with rfl | hi
        · exact h.2
        · exact hagrees i hi hlt
      · exact ⟨le_rfl, hle, fun i hi hlt => absurd hlt (Nat.not_lt.mpr hi)⟩

variable {rule : MatchRule} {block : Bytes} {position : ℕ}

/-- No match was found, or the one that was found may be emitted. -/
def Found (rule : MatchRule) (block : Bytes) (position : ℕ) (best : ℕ × ℕ) : Prop :=
  best.1 = 0 ∨ IsMatch rule block position best.1 best.2

theorem longestMatch_found (hrule : rule.Sound) (hroom : position + 3 ≤ block.length)
    {candidates : List ℕ} {best : ℕ × ℕ}
    (hcandidates : ∀ c ∈ candidates, ∀ i < 3, block[c + i]? = block[position + i]?)
    (hbest : Found rule block position best) :
    Found rule block position (longestMatch rule block position candidates best) := by
  induction candidates generalizing best with
  | nil => exact hbest
  | cons candidate candidates ih =>
      obtain ⟨hcandidate, hcandidates⟩ := List.forall_mem_cons.mp hcandidates
      have hlimit : 3 ≤ min rule.maximumMatch (block.length - position) :=
        le_min hrule.maximum (by omega)
      obtain ⟨-, hle, hagrees⟩ := @extendMatch_spec (rule.agrees block position candidate) _
        (min rule.maximumMatch (block.length - position) - 3) _ hlimit
      simp only [longestMatch]
      split_ifs with hfar hbetter hfull
      · exact ih hcandidates hbest
      all_goals
        have hdistance : candidate < position := by omega
        have hmatch : Found rule block position (_, position - candidate) :=
          .inr ⟨by omega, by omega, by omega, hle.trans (min_le_left _ _), by
            have := hle.trans (min_le_right _ _)
            omega, hrule.repeats hdistance hcandidate hagrees⟩
      · exact hmatch
      · exact ih hcandidates hmatch
      · exact ih hcandidates hbest

theorem getElem?_of_slice_eq {candidate i : ℕ}
    (h : slice block candidate (candidate + 3) = slice block position (position + 3)) (hi : i < 3) :
    block[candidate + i]? = block[position + i]? := by
  have hget : ∀ start, (slice block start (start + 3))[i]? = block[start + i]? := by
    intro start
    rw [slice, List.getElem?_take_of_lt (by omega), List.getElem?_drop]
  rw [← hget candidate, h, hget position]

theorem findMatch_found (hrule : rule.Sound) {positions : Positions}
    (hindexed : Indexed block position positions) :
    Found rule block position (findMatch rule block positions position) := by
  unfold findMatch
  split_ifs with hroom
  · apply longestMatch_found hrule (by have := hrule.minimum; omega)
    · intro candidate hcandidate i hi
      have hmem := mem_lastEntries (List.mem_reverse.mp hcandidate)
      exact getElem?_of_slice_eq (hindexed _ candidate hmem).2 hi
    · exact .inl rfl
  · exact .inl rfl

/-! ### The parse -/

structure Parse where
  position : ℕ
  positions : Positions
  /-- The bytes put aside. -/
  pending : Bytes
  tokens : List Token

/-- The bytes put aside are emitted, and the match after them. -/
def Parse.copy (rule : MatchRule) (block : Bytes) (s : Parse) (length distance : ℕ) : Parse where
  position := s.position + length
  positions := indexRange rule block s.positions s.position length
  pending := []
  tokens := s.tokens ++ rule.emitLiterals s.pending ++ [.copied distance length]

/-- A byte is put aside; as soon as there are enough of them, they are emitted. -/
def Parse.literal (rule : MatchRule) (block : Bytes) (s : Parse) (byte : UInt8) : Parse :=
  let pending := s.pending ++ [byte]
  let full : Bool := rule.flushAt = some pending.length
  { position := s.position + 1
    positions := indexAt rule block s.positions s.position
    pending := if full then [] else pending
    tokens := if full then s.tokens ++ rule.emitLiterals pending else s.tokens }

def parseRound (rule : MatchRule) (block : Bytes) (s : Parse) :
    Except PyError (Parse ⊕ List Token) :=
  if s.position < block.length then
    let best := findMatch rule block s.positions s.position
    if rule.minimumMatch ≤ best.1 then .ok (.inl (s.copy rule block best.1 best.2))
    else
      match block[s.position]? with
      | none => .error lookupError
      | some byte => .ok (.inl (s.literal rule block byte))
  else .ok (.inr (s.tokens ++ rule.emitLiterals s.pending))

/-- The tokens of a block. -/
def parse (rule : MatchRule) (block : Bytes) : Except PyError (List Token) :=
  Iteration.run (parseRound rule block) endless (block.length + 1) ⟨0, fun _ => [], [], []⟩

/-- The tokens a rule emits are allowed. -/
structure MatchRule.Emitting (rule : MatchRule) (Allowed : Token → Prop) : Prop where
  flush_pos : rule.flushAt ≠ some 0
  literals : ∀ (output bytes : Bytes), (∀ n, rule.flushAt = some n → bytes.length ≤ n) →
    Emits Allowed output (rule.emitLiterals bytes) (output ++ bytes)
  copied : ∀ {distance length : ℕ}, 1 ≤ distance → distance ≤ rule.maximumDistance →
    rule.minimumMatch ≤ length → length ≤ rule.maximumMatch → Allowed (.copied distance length)

variable {Allowed : Token → Prop}

/-- The tokens and the bytes put aside give the block up to the position. -/
structure Parse.Inv (rule : MatchRule) (Allowed : Token → Prop) (block : Bytes) (s : Parse) :
    Prop where
  position_le : s.position ≤ block.length
  indexed : Indexed block s.position s.positions
  room : ∀ n, rule.flushAt = some n → s.pending.length < n
  emits : ∃ output, Emits Allowed [] s.tokens output ∧
    output ++ s.pending = block.take s.position

/-- After the bytes put aside are emitted, the output is the block up to the position. -/
theorem Parse.Inv.flush {s : Parse} (hemit : rule.Emitting Allowed) (h : s.Inv rule Allowed block) :
    Emits Allowed [] (s.tokens ++ rule.emitLiterals s.pending) (block.take s.position) := by
  obtain ⟨output, hemits, hpending⟩ := h.emits
  rw [← hpending]
  exact hemits.append (hemit.literals output s.pending fun n hn => (h.room n hn).le)

theorem Parse.Inv.copy {s : Parse} {length distance : ℕ} (hemit : rule.Emitting Allowed)
    (h : s.Inv rule Allowed block) (hmin : rule.minimumMatch ≤ length)
    (hmatch : IsMatch rule block s.position length distance) :
    (s.copy rule block length distance).Inv rule Allowed block where
  position_le := hmatch.length_le
  indexed := indexed_indexRange h.indexed
  room n hn := by
    show 0 < n
    by_contra hzero
    obtain rfl : n = 0 := by omega
    exact hemit.flush_pos hn
  emits := by
    have hlength : (block.take s.position).length = s.position := by
      rw [List.length_take]
      exact min_eq_left h.position_le
    have hreaches : Reaches distance (block.take s.position) :=
      ⟨hmatch.distance_pos, hlength.symm ▸ hmatch.distance_le⟩
    have hcopy := copyMatch_take hmatch.distance_pos hmatch.distance_le hmatch.length_le
      hmatch.repeats
    have hallowed := hemit.copied hmatch.distance_pos hmatch.distance_max hmin hmatch.length_max
    refine ⟨block.take (s.position + length), ?_, List.append_nil _⟩
    exact (h.flush hemit).append (.copied hallowed hreaches hcopy .nil)

theorem Parse.Inv.literal {s : Parse} {byte : UInt8} (hemit : rule.Emitting Allowed)
    (h : s.Inv rule Allowed block) (hbyte : block[s.position]? = some byte) :
    (s.literal rule block byte).Inv rule Allowed block := by
  obtain ⟨hlt, hget⟩ := List.getElem?_eq_some_iff.mp hbyte
  have hindexed : Indexed block (s.position + 1) (indexAt rule block s.positions s.position) :=
    indexed_indexAt (h.indexed.mono (Nat.le_succ _)) (Nat.lt_succ_self _)
  obtain ⟨output, hemits, hpending⟩ := h.emits
  have htake : output ++ (s.pending ++ [byte]) = block.take (s.position + 1) := by
    rw [← List.append_assoc, hpending, List.take_succ_eq_append_getElem hlt, hget]
  have hle : ∀ n, rule.flushAt = some n → (s.pending ++ [byte]).length ≤ n := by
    intro n hn
    rw [List.length_append, List.length_singleton]
    exact h.room n hn
  by_cases hfull : rule.flushAt = some (s.pending ++ [byte]).length
  · have hs : s.literal rule block byte = ⟨s.position + 1,
        indexAt rule block s.positions s.position, [],
        s.tokens ++ rule.emitLiterals (s.pending ++ [byte])⟩ := by
      simp only [Parse.literal, hfull, decide_true, if_true]
    rw [hs]
    refine ⟨hlt, hindexed, fun n hn => ?_, _, hemits.append (hemit.literals output _ hle), ?_⟩
    · obtain rfl := Option.some.inj (hfull.symm.trans hn)
      show 0 < (s.pending ++ [byte]).length
      simp
    · rw [List.append_nil, htake]
  · have hs : s.literal rule block byte = ⟨s.position + 1,
        indexAt rule block s.positions s.position, s.pending ++ [byte], s.tokens⟩ := by
      simp only [Parse.literal, hfull, decide_false, Bool.false_eq_true, if_false]
    rw [hs]
    refine ⟨hlt, hindexed, fun n hn => ?_, output, hemits, htake⟩
    refine Nat.lt_of_le_of_ne (hle n hn) fun heq => hfull ?_
    rw [hn, heq]

/-- The tokens of a block lead to it, and each of them is allowed. -/
theorem parse_emits (hrule : rule.Sound) (hemit : rule.Emitting Allowed) (block : Bytes) :
    ∃ tokens, parse rule block = .ok tokens ∧ Emits Allowed [] tokens block := by
  have hround : ∀ s : Parse, s.Inv rule Allowed block →
      Iteration.Round (Parse.Inv rule Allowed block) (fun s => block.length - s.position)
        (fun tokens => Emits Allowed [] tokens block) (fun _ => False) s (parseRound rule block s) := by
    intro s hs
    simp only [parseRound]
    split_ifs with hposition hmin
    · have hfound := (findMatch_found hrule hs.indexed).resolve_left fun hzero => by
        have := hrule.minimum
        omega
      refine ⟨hs.copy hemit hmin hfound, ?_⟩
      have := hrule.minimum
      simp only [Parse.copy]
      omega
    · rw [List.getElem?_eq_getElem hposition]
      refine ⟨hs.literal hemit (List.getElem?_eq_getElem hposition), ?_⟩
      show block.length - (s.position + 1) < block.length - s.position
      omega
    · have hend : s.position = block.length := Nat.le_antisymm hs.position_le (by omega)
      have hflush := hs.flush hemit
      rw [hend, List.take_length] at hflush
      exact hflush
  have hstart : (⟨0, fun _ => [], [], []⟩ : Parse).Inv rule Allowed block := by
    refine ⟨Nat.zero_le _, fun _ _ h => (by cases h), fun n hn => ?_, [], .nil, rfl⟩
    show 0 < n
    by_contra hzero
    obtain rfl : n = 0 := by omega
    exact hemit.flush_pos hn
  have hout := Iteration.run_outcome endless (n := block.length + 1) hround hstart
    (Nat.lt_succ_of_le (Nat.sub_le _ _))
  rcases hrun : parse rule block with e | tokens
  · rw [parse] at hrun
    rw [hrun] at hout
    exact hout.elim
  · rw [parse] at hrun
    rw [hrun] at hout
    exact ⟨tokens, rfl, hout⟩

end MosaicArchive.Modes
