import MosaicArchive.Modes.LzRans

/-!
Every block is restored by the LZ_RANS mode, and its decoder is total. The
decoder goes through the tokens with the numbers and the literals that are left,
and ends with none of them left.
-/

namespace MosaicArchive.Modes.LzRansMode

open FixedWidth
open Manifest (PyError)

/-! ### The tokens are replayed -/

theorem round_literals {expectedSize : ℕ} {tokens literals bytes output : Bytes}
    {literalLengths matchLengths distances : List ℕ} (hpos : 1 ≤ bytes.length)
    (hroom : output.length + bytes.length ≤ expectedSize) :
    Iteration.Next (round expectedSize)
      ⟨literalTag :: tokens, bytes ++ literals, bytes.length :: literalLengths, matchLengths,
        distances, output⟩
      ⟨tokens, literals, literalLengths, matchLengths, distances, output ++ bytes⟩ := by
  have hvalid : ¬ (bytes.length = 0 ∨ (bytes ++ literals).length < bytes.length) := by
    rw [List.length_append]
    omega
  show round expectedSize _ = _
  simp only [round, replayToken, replayLiterals, if_true, if_neg hvalid, if_neg (Nat.not_lt.mpr hroom),
    List.drop_left, List.take_left, bind, Except.bind]

theorem round_match {expectedSize distance length : ℕ} {tokens literals output next : Bytes}
    {literalLengths matchLengths distances : List ℕ} (hmin : minimumMatch ≤ length)
    (hreaches : Reaches distance output) (hcopy : copyMatch distance length output = .ok next)
    (hroom : output.length + length ≤ expectedSize) :
    Iteration.Next (round expectedSize)
      ⟨matchTag :: tokens, literals, literalLengths, length :: matchLengths,
        distance :: distances, output⟩
      ⟨tokens, literals, literalLengths, matchLengths, distances, next⟩ := by
  have hvalid : ¬ (length < minimumMatch ∨ distance = 0 ∨ output.length < distance ∨
      expectedSize < output.length + length) := by
    obtain ⟨hpos, hle⟩ := hreaches
    omega
  show round expectedSize _ = _
  simp only [round, replayToken, replayMatch, if_neg matchTag_ne, if_neg hvalid, hcopy, bind, Except.bind]

/-- The decoder goes through the streams of the tokens to the output they lead to, and uses
all of them up. -/
theorem replay_visits {tokens : List Token} {output result : Bytes}
    (h : Emits InRange output tokens result) :
    Iteration.Visits (round result.length)
      ⟨(streams tokens).tokens, (streams tokens).literals, literalCounts tokens, matchCounts tokens,
        distanceCounts tokens, output⟩
      ⟨[], [], [], [], [], result⟩ := by
  induction h with
  | nil => exact .refl
  | @literals output result bytes tokens hallowed h ih =>
      have hsize := h.length_le
      rw [List.length_append] at hsize
      exact .head (round_literals hallowed hsize) ih
  | @copied output next result distance length tokens hallowed hreaches hcopy h ih =>
      have hsize := h.length_le
      rw [copyMatch_length_eq hreaches hcopy] at hsize
      exact .head (round_match hallowed.2.2.1 hreaches hcopy hsize) ih

theorem readTokens_streams {tokens : List Token} {block : Bytes}
    (h : Emits InRange [] tokens block) (hblock : block.length < 0x80 ^ 5) :
    readTokens (streams tokens) = .ok ⟨(streams tokens).tokens, (streams tokens).literals,
      literalCounts tokens, matchCounts tokens, distanceCounts tokens, []⟩ := by
  obtain ⟨hliterals, hmatches, hdistances⟩ := counts_lt h hblock
  have hc := consistent tokens
  have hlengths := decodeVarints_flatMap hliterals
  have hmatch := decodeVarints_flatMap hmatches
  have hdistance := decodeVarints_flatMap hdistances
  rw [hc.distance_count] at hdistance
  simp only [readTokens, hc.literal_count, hc.match_count, hc.token_count, hc.literalLengths,
    hc.matchLengths, hc.distances, hlengths, hmatch, hdistance, ne_eq, not_true_eq_false, if_false,
    bind, Except.bind]

/-! ### The streams are packed -/

theorem rans_round_trip {raw : Bytes} (hraw : raw.length ≤ 2 ^ 24) :
    ∃ encoded, ByteRansMode.encode raw = .ok encoded ∧
      ByteRansMode.decode encoded raw.length = .ok raw ∧ encoded.length < 256 ^ 4 := by
  by_cases hempty : raw = []
  · subst hempty
    refine ⟨[], ?_, ?_, by norm_num⟩
    · simp [ByteRansMode.encode]
    · simp [ByteRansMode.decode]
  · obtain ⟨_, _, encoded, -, -, -, hencode, hlength, -, -, -, hdecode⟩ :=
      ByteRansMode.encode_decode hempty
    exact ⟨encoded, hencode, hdecode, by omega⟩

/-- The lengths of the raw and encoded streams. -/
def lengths (raws encoded : List Bytes) : List (ℕ × ℕ) :=
  (raws.zip encoded).map fun s => (s.1.length, s.2.length)

/-- Encoded streams are decoded one after the other. -/
theorem encodeStreams_decode {raws : List Bytes} (hraws : ∀ raw ∈ raws, raw.length ≤ 2 ^ 24) :
    ∃ encoded, encodeStreams raws = .ok encoded ∧ encoded.length = raws.length ∧
      (∀ stream ∈ encoded, stream.length < 256 ^ 4) ∧
      decodeStreams (lengths raws encoded) encoded.flatten = .ok raws := by
  induction raws with
  | nil => exact ⟨[], rfl, rfl, by simp, rfl⟩
  | cons raw raws ih =>
      obtain ⟨hraw, hraws⟩ := List.forall_mem_cons.mp hraws
      obtain ⟨stream, hencode, hdecode, hlt⟩ := rans_round_trip hraw
      obtain ⟨encoded, hencodes, hcount, hlts, hdecodes⟩ := ih hraws
      refine ⟨stream :: encoded, ?_, ?_, List.forall_mem_cons.mpr ⟨hlt, hlts⟩, ?_⟩
      · simp only [encodeStreams, hencode, hencodes, bind, Except.bind]
      · rw [List.length_cons, List.length_cons, hcount]
      · simp only [lengths, List.zip_cons_cons, List.map_cons, List.flatten_cons, decodeStreams,
          List.take_left, List.drop_left, hdecode, bind, Except.bind]
        simp only [lengths] at hdecodes
        rw [hdecodes]

theorem packWords_unpack {ns : List ℕ} (hns : ∀ n ∈ ns, n < 256 ^ 4) :
    ∃ words, packWords ns = .ok words ∧ words.length = 4 * ns.length ∧
      ∀ rest, unpackWords ns.length (words ++ rest) = ns := by
  induction ns with
  | nil => exact ⟨[], rfl, rfl, fun _ => rfl⟩
  | cons n ns ih =>
      obtain ⟨hn, hns⟩ := List.forall_mem_cons.mp hns
      obtain ⟨words, hwords, hlength, hunpack⟩ := ih hns
      have hword : (beBytes 4 n).length = 4 := beBytes_length 4 n
      refine ⟨beBytes 4 n ++ words, ?_, ?_, fun rest => ?_⟩
      · simp only [packWords, if_pos hn, hwords, bind, Except.bind]
      · rw [List.length_append, hword, hlength, List.length_cons]
        omega
      · rw [List.append_assoc, List.length_cons, unpackWords, List.take_left' hword,
          List.drop_left' hword, beNat_beBytes_of_lt hn, hunpack rest]

theorem pairs_flatMap (l : List (ℕ × ℕ)) : pairs (l.flatMap fun s => [s.1, s.2]) = l := by
  induction l with
  | nil => rfl
  | cons s l ih =>
      rw [List.flatMap_cons, List.cons_append, List.cons_append, List.nil_append, pairs, ih]

theorem sum_lengths {raws encoded : List Bytes} (h : encoded.length = raws.length) :
    ((lengths raws encoded).map Prod.snd).sum = encoded.flatten.length := by
  have hsnd : (lengths raws encoded).map Prod.snd = encoded.map List.length := by
    rw [lengths, List.map_map, show (Prod.snd ∘ fun s : Bytes × Bytes => (s.1.length, s.2.length)) =
      List.length ∘ Prod.snd from rfl, ← List.map_map, List.map_snd_zip h.le]
  rw [hsnd, List.length_flatten]

theorem mem_lengths {raws encoded : List Bytes} {l : ℕ × ℕ} (h : l ∈ lengths raws encoded) :
    (∃ raw ∈ raws, raw.length = l.1) ∧ ∃ stream ∈ encoded, stream.length = l.2 := by
  obtain ⟨⟨raw, stream⟩, hmem, rfl⟩ := List.mem_map.mp h
  obtain ⟨hraw, hstream⟩ := List.of_mem_zip hmem
  exact ⟨⟨raw, hraw, rfl⟩, stream, hstream, rfl⟩

/-- Five streams that are no longer than the block are packed and read back. -/
theorem readStreams_encoded {s : Streams} {expectedSize : ℕ} (hsize : expectedSize ≤ 2 ^ 24)
    (hs : ∀ stream ∈ s.toList, stream.length ≤ expectedSize) :
    ∃ encoded words, encodeStreams s.toList = .ok encoded ∧
      packWords ((s.toList.zip encoded).flatMap fun s => [s.1.length, s.2.length]) = .ok words ∧
      readStreams (magic ++ words ++ encoded.flatten) expectedSize = .ok s := by
  obtain ⟨encoded, hencoded, hcount, hlts, hdecode⟩ :=
    encodeStreams_decode fun raw hraw => (hs raw hraw).trans hsize
  have hdescriptor : ((s.toList.zip encoded).flatMap fun s => [s.1.length, s.2.length]) =
      (lengths s.toList encoded).flatMap fun l => [l.1, l.2] := by
    rw [lengths, List.flatMap_map]
  have hfive : (lengths s.toList encoded).length = 5 := by
    rw [lengths, List.length_map, List.length_zip, hcount, Nat.min_self]
    rfl
  have hten : ((lengths s.toList encoded).flatMap fun l => [l.1, l.2]).length = 10 := by
    simp [List.length_flatMap, hfive]
  have hlengths : ∀ l ∈ lengths s.toList encoded, l.1 ≤ expectedSize ∧ l.2 < 256 ^ 4 := by
    intro l hl
    obtain ⟨⟨raw, hraw, hfirst⟩, stream, hstream, hsecond⟩ := mem_lengths hl
    rw [← hfirst, ← hsecond]
    exact ⟨hs raw hraw, hlts stream hstream⟩
  have hfit : ∀ n ∈ (lengths s.toList encoded).flatMap fun l => [l.1, l.2], n < 256 ^ 4 := by
    intro n hn
    obtain ⟨l, hl, hn⟩ := List.mem_flatMap.mp hn
    obtain ⟨hraw, hstream⟩ := hlengths l hl
    rcases List.mem_pair.mp hn with rfl | rfl
    · omega
    · exact hstream
  obtain ⟨words, hwords, hlength, hunpack⟩ := packWords_unpack hfit
  rw [hten] at hlength hunpack
  refine ⟨encoded, words, hencoded, hdescriptor ▸ hwords, ?_⟩
  have hmagic : magic.length = 4 := rfl
  have hlong : ¬ (magic ++ (words ++ encoded.flatten)).length < headerSize := by
    rw [List.length_append, List.length_append, hlength, hmagic, headerSize]
    omega
  have hsmall : ¬ ((lengths s.toList encoded).any fun l => expectedSize < l.1) = true := by
    simp only [List.any_eq_true, decide_eq_true_eq, not_exists, not_and, not_lt]
    exact fun l hl => (hlengths l hl).1
  have hsum : ((lengths s.toList encoded).map Prod.snd).sum =
      (magic ++ (words ++ encoded.flatten)).length - headerSize := by
    rw [sum_lengths hcount, List.length_append, List.length_append, hlength, hmagic, headerSize]
    omega
  have hrest : (magic ++ (words ++ encoded.flatten)).drop headerSize = encoded.flatten := by
    rw [← List.append_assoc]
    exact List.drop_left' (by rw [List.length_append, hlength, hmagic, headerSize])
  have hread : readLengths (magic ++ (words ++ encoded.flatten)) expectedSize =
      .ok (lengths s.toList encoded) := by
    simp only [readLengths, if_neg hlong, List.take_left' hmagic, List.drop_left' hmagic,
      hunpack encoded.flatten, pairs_flatMap, if_neg hsmall, hsum, ne_eq, not_true_eq_false, if_false]
  simp only [readStreams, List.append_assoc, hread, hrest, hdecode, bind, Except.bind]
  rfl

/-! ### Any payload -/

theorem replayLiterals_outcome {expectedSize : ℕ} {s : Replay} (hs : s.literalLengths ≠ []) :
    Iteration.Outcome (fun s' : Replay => s'.tokens = s.tokens ∧
      s'.literalLengths.length + 1 = s.literalLengths.length ∧ s'.matchLengths = s.matchLengths ∧
      s'.distances = s.distances ∧ s'.output.length ≤ expectedSize) IsFormatError
      (replayLiterals expectedSize s) := by
  obtain ⟨length, literalLengths, hlengths⟩ := List.exists_cons_of_ne_nil hs
  simp only [replayLiterals, hlengths]
  split_ifs with hinvalid hlong
  · exact isFormatError _
  · exact isFormatError _
  · refine ⟨rfl, rfl, rfl, rfl, ?_⟩
    rw [List.length_append, List.length_take]
    omega

theorem replayMatch_outcome {expectedSize : ℕ} {s : Replay} (hs : s.matchLengths ≠ [])
    (hlength : s.distances.length = s.matchLengths.length) :
    Iteration.Outcome (fun s' : Replay => s'.tokens = s.tokens ∧
      s'.literalLengths = s.literalLengths ∧ s'.matchLengths.length + 1 = s.matchLengths.length ∧
      s'.distances.length + 1 = s.distances.length ∧ s'.output.length ≤ expectedSize) IsFormatError
      (replayMatch expectedSize s) := by
  obtain ⟨length, matchLengths, hmatches⟩ := List.exists_cons_of_ne_nil hs
  have hne : s.distances ≠ [] := by
    rw [← List.length_pos_iff, hlength, hmatches]
    exact Nat.succ_pos _
  obtain ⟨distance, distances, hdistances⟩ := List.exists_cons_of_ne_nil hne
  simp only [replayMatch, hmatches, hdistances]
  split_ifs with hinvalid
  · exact isFormatError _
  · -- The distance was checked, so the copy does not fail.
    have hreaches : Reaches distance s.output := ⟨by omega, by omega⟩
    obtain ⟨output, hcopy, hsize⟩ := copyMatch_length length hreaches
    simp only [hcopy, bind, Except.bind]
    refine ⟨rfl, rfl, rfl, rfl, ?_⟩
    show output.length ≤ expectedSize
    omega

/-- There is a number left for every token that is left. -/
structure Counted (s : Replay) : Prop where
  known : ∀ token ∈ s.tokens, token = literalTag ∨ token = matchTag
  literals : s.tokens.count literalTag = s.literalLengths.length
  matched : s.tokens.count matchTag = s.matchLengths.length
  distances : s.distances.length = s.matchLengths.length

theorem round_bounded {expectedSize : ℕ} (s : Replay) (hsize : s.output.length ≤ expectedSize)
    (hs : Counted s) :
    BoundedRound (fun s => s.output.length) (fun s => s.tokens.length) Counted expectedSize s
      (round expectedSize s) := by
  obtain ⟨_ | ⟨token, tokens⟩, literals, literalLengths, matchLengths, distances, output⟩ := s
  · simp only [round]
    split_ifs with hleft
    · exact isFormatError _
    · exact not_not.mp (not_or.mp hleft).2
  · obtain ⟨hknown, hliterals, hmatches, hdistances⟩ := hs
    obtain ⟨htoken, hknown⟩ := List.forall_mem_cons.mp hknown
    rcases htoken with rfl | rfl
    · rw [List.count_cons_self] at hliterals
      rw [List.count_cons_of_ne matchTag_ne.symm] at hmatches
      have hne : literalLengths ≠ [] := List.length_pos_iff.mp (by
        show 0 < literalLengths.length
        simp only at hliterals
        omega)
      have hout := @replayLiterals_outcome expectedSize
        ⟨tokens, literals, literalLengths, matchLengths, distances, output⟩ hne
      simp only [round, replayToken, if_true, bind, Except.bind]
      rcases hr : replayLiterals expectedSize
        ⟨tokens, literals, literalLengths, matchLengths, distances, output⟩ with e | s'
      · rw [hr] at hout
        exact hout
      · rw [hr] at hout
        obtain ⟨htokens, hcount, hmatch, hdistance, houtput⟩ := hout
        refine ⟨⟨houtput, ⟨?_, ?_, ?_, ?_⟩⟩, ?_⟩
        · rwa [htokens]
        · rw [htokens]
          simp only at hliterals hcount ⊢
          omega
        · rw [htokens, hmatch]
          exact hmatches
        · rw [hdistance, hmatch]
          exact hdistances
        · show s'.tokens.length < tokens.length + 1
          rw [htokens]
          exact Nat.lt_succ_self _
    · rw [List.count_cons_self] at hmatches
      rw [List.count_cons_of_ne matchTag_ne] at hliterals
      have hne : matchLengths ≠ [] := List.length_pos_iff.mp (by
        show 0 < matchLengths.length
        simp only at hmatches
        omega)
      have hout := @replayMatch_outcome expectedSize
        ⟨tokens, literals, literalLengths, matchLengths, distances, output⟩ hne hdistances
      simp only [round, replayToken, if_neg matchTag_ne, bind, Except.bind]
      rcases hr : replayMatch expectedSize
        ⟨tokens, literals, literalLengths, matchLengths, distances, output⟩ with e | s'
      · rw [hr] at hout
        exact hout
      · rw [hr] at hout
        obtain ⟨htokens, hliteral, hcount, hdistance, houtput⟩ := hout
        refine ⟨⟨houtput, ⟨?_, ?_, ?_, ?_⟩⟩, ?_⟩
        · rwa [htokens]
        · rw [htokens, hliteral]
          exact hliterals
        · rw [htokens]
          simp only at hmatches hcount ⊢
          omega
        · simp only at hdistances hcount hdistance ⊢
          omega
        · show s'.tokens.length < tokens.length + 1
          rw [htokens]
          exact Nat.lt_succ_self _

theorem count_add_count_le {a b : UInt8} (hne : a ≠ b) (l : Bytes) :
    l.count a + l.count b ≤ l.length := by
  induction l with
  | nil => exact le_rfl
  | cons c l ih =>
      rw [List.count_cons, List.count_cons, List.length_cons]
      split_ifs with ha hb
      · exact absurd ((eq_of_beq ha).symm.trans (eq_of_beq hb)) hne
      all_goals omega

theorem known_of_count {a b : UInt8} (hne : a ≠ b) {l : Bytes}
    (h : l.count a + l.count b = l.length) : ∀ c ∈ l, c = a ∨ c = b := by
  induction l with
  | nil => simp
  | cons c l ih =>
      have hle := count_add_count_le hne l
      rw [List.count_cons, List.count_cons, List.length_cons] at h
      rw [List.forall_mem_cons]
      split_ifs at h with ha hb hb
      · exact absurd ((eq_of_beq ha).symm.trans (eq_of_beq hb)) hne
      · exact ⟨.inl (eq_of_beq ha), ih (by omega)⟩
      · exact ⟨.inr (eq_of_beq hb), ih (by omega)⟩
      · omega

theorem readTokens_outcome (s : Streams) :
    Iteration.Outcome (fun start : Replay => Counted start ∧ start.output = []) IsFormatError
      (readTokens s) := by
  simp only [readTokens]
  split_ifs with hcount
  · exact isFormatError _
  have hliteral := decodeVarints_outcome (s.tokens.count literalTag) s.literalLengths
  have hmatch := decodeVarints_outcome (s.tokens.count matchTag) s.matchLengths
  have hdistance := decodeVarints_outcome (s.tokens.count matchTag) s.distances
  rcases hl : decodeVarints (s.tokens.count literalTag) s.literalLengths with e | literalLengths
  · rw [hl] at hliteral
    exact hliteral
  rcases hm : decodeVarints (s.tokens.count matchTag) s.matchLengths with e | matchLengths
  · rw [hm] at hmatch
    exact hmatch
  rcases hd : decodeVarints (s.tokens.count matchTag) s.distances with e | distances
  · rw [hd] at hdistance
    exact hdistance
  rw [hl] at hliteral
  rw [hm] at hmatch
  rw [hd] at hdistance
  refine ⟨⟨known_of_count matchTag_ne.symm (not_not.mp hcount), ?_, ?_, ?_⟩, rfl⟩
  · exact Eq.symm hliteral
  · exact Eq.symm hmatch
  · exact Eq.trans hdistance (Eq.symm hmatch)

theorem pairs_unpackWords_length (bytes : Bytes) : (pairs (unpackWords 10 bytes)).length = 5 := by
  simp [unpackWords, pairs]

theorem readLengths_outcome (payload : Bytes) (expectedSize : ℕ) :
    Iteration.Outcome (fun lengths : List (ℕ × ℕ) => lengths.length = 5 ∧
      ∀ l ∈ lengths, l.1 ≤ expectedSize) IsFormatError (readLengths payload expectedSize) := by
  have hfive := pairs_unpackWords_length (payload.drop 4)
  simp only [readLengths]
  generalize pairs (unpackWords 10 (payload.drop 4)) = lengths at hfive ⊢
  split_ifs with hshort hmagic hlong hsum
  · exact isFormatError _
  · exact isFormatError _
  · exact isFormatError _
  · exact isFormatError _
  · refine ⟨hfive, fun l hl => ?_⟩
    simp only [List.any_eq_true, decide_eq_true_eq, not_exists, not_and, not_lt] at hlong
    exact hlong l hl

theorem decodeStreams_outcome {expectedSize : ℕ} {lengths : List (ℕ × ℕ)}
    (hlengths : ∀ l ∈ lengths, l.1 ≤ expectedSize) (payload : Bytes) :
    Iteration.Outcome (fun streams : List Bytes => streams.length = lengths.length ∧
      ∀ stream ∈ streams, stream.length ≤ expectedSize) IsFormatError
      (decodeStreams lengths payload) := by
  induction lengths generalizing payload with
  | nil => exact ⟨rfl, by simp⟩
  | cons l lengths ih =>
      obtain ⟨rawLength, encodedLength⟩ := l
      obtain ⟨hraw, hlengths⟩ := List.forall_mem_cons.mp hlengths
      have hfirst := (ByteRansMode.decode_total (payload.take encodedLength) rawLength).1
      have hrest := ih hlengths (payload.drop encodedLength)
      simp only [decodeStreams, bind, Except.bind]
      rcases hf : ByteRansMode.decode (payload.take encodedLength) rawLength with e | stream
      · rw [hf] at hfirst
        exact hfirst
      rcases hr : decodeStreams lengths (payload.drop encodedLength) with e | streams
      · rw [hr] at hrest
        exact hrest
      rw [hf] at hfirst
      rw [hr] at hrest
      obtain ⟨hcount, hstreams⟩ := hrest
      have hstream : stream.length = rawLength := hfirst
      refine ⟨congrArg (· + 1) hcount, List.forall_mem_cons.mpr ⟨?_, hstreams⟩⟩
      rw [hstream]
      exact hraw

theorem readStreams_outcome (payload : Bytes) (expectedSize : ℕ) :
    Iteration.Outcome (fun s : Streams => ∀ stream ∈ s.toList, stream.length ≤ expectedSize)
      IsFormatError (readStreams payload expectedSize) := by
  have hlengths := readLengths_outcome payload expectedSize
  simp only [readStreams, bind, Except.bind]
  rcases hl : readLengths payload expectedSize with e | lengths
  · rw [hl] at hlengths
    exact hlengths
  rw [hl] at hlengths
  have hstreams := decodeStreams_outcome hlengths.2 (payload.drop headerSize)
  rcases hs : decodeStreams lengths (payload.drop headerSize) with e | streams
  · rw [hs] at hstreams
    simp only [hs]
    exact hstreams
  rw [hs] at hstreams
  obtain ⟨hcount, hle⟩ := hstreams
  rw [hlengths.1] at hcount
  -- There are five streams, as the assignment needs.
  rcases streams with _ | ⟨a, _ | ⟨b, _ | ⟨c, _ | ⟨d, _ | ⟨e, _ | ⟨f, rest⟩⟩⟩⟩⟩⟩
  case cons.cons.cons.cons.cons.nil =>
    simp only [hs]
    exact hle
  all_goals
    simp only [List.length_cons, List.length_nil] at hcount
    omega

/-- The decoder is total, and neither its output nor a stream inside the payload exceeds the
expected size, not even while it is decoded. -/
theorem decode_total (payload : Bytes) (expectedSize : ℕ) :
    Decodes expectedSize (decode payload expectedSize) ∧
      (∀ lengths, readLengths payload expectedSize = .ok lengths →
        ∀ l ∈ lengths, l.1 ≤ expectedSize ∧ ∀ encoded m state rest,
          ByteRansMode.readHeader encoded = .ok (m, state, rest) →
          ∀ s, Iteration.Visits (ByteRansMode.decodeRound m) ⟨l.1, state, rest, []⟩ s →
            s.output.length ≤ expectedSize) ∧
      ∀ s, readStreams payload expectedSize = .ok s →
        (∀ stream ∈ s.toList, stream.length ≤ expectedSize) ∧
        ∀ start, readTokens s = .ok start →
          ∀ s', Iteration.Visits (round expectedSize) start s' → s'.output.length ≤ expectedSize := by
  have hreplay : ∀ s start, readTokens s = .ok start →
      Decodes expectedSize
          (Iteration.run (round expectedSize) endless (start.tokens.length + 1) start) ∧
        ∀ s', Iteration.Visits (round expectedSize) start s' → s'.output.length ≤ expectedSize := by
    intro s start hstart
    have htokens := readTokens_outcome s
    rw [hstart] at htokens
    obtain ⟨hcounted, hempty⟩ := htokens
    have hsize : start.output.length ≤ expectedSize := by
      rw [hempty]
      exact Nat.zero_le _
    have h := decodes_of_rounds (fun s hsize hs => round_bounded s hsize hs) hsize hcounted
      (Nat.lt_succ_self _)
    exact ⟨h.1, fun s' hvisits => (h.2 s' hvisits).1⟩
  refine ⟨?_, fun lengths hlengths l hl => ?_, fun s hs => ⟨?_, fun start hstart => ?_⟩⟩
  · simp only [decode]
    split_ifs with hzero hpayload
    · exact isFormatError _
    · exact hzero.symm
    · have hstreams := readStreams_outcome payload expectedSize
      simp only [bind, Except.bind]
      rcases hs : readStreams payload expectedSize with e | s
      · rw [hs] at hstreams
        exact hstreams
      · have htokens := readTokens_outcome s
        rcases ht : readTokens s with e | start
        · rw [ht] at htokens
          simp only [ht]
          exact htokens
        · simp only [ht]
          exact (hreplay s start ht).1
  · have h := readLengths_outcome payload expectedSize
    rw [hlengths] at h
    refine ⟨h.2 l hl, fun encoded m state rest hread s hvisits => ?_⟩
    exact ((ByteRansMode.decode_total encoded l.1).2 m state rest hread s hvisits).trans (h.2 l hl)
  · have h := readStreams_outcome payload expectedSize
    rw [hs] at h
    exact h
  · exact (hreplay s start hstart).2

/-! ### The round trip -/

theorem round_next {expectedSize : ℕ} {s s' : Replay}
    (h : Iteration.Next (round expectedSize) s s') : s'.tokens.length < s.tokens.length := by
  obtain ⟨_ | ⟨token, tokens⟩, literals, literalLengths, matchLengths, distances, output⟩ := s
  · simp only [Iteration.Next, round] at h
    split_ifs at h
    cases h
  · simp only [Iteration.Next, round, Except.bind_eq_ok_iff] at h
    obtain ⟨next, hnext, h⟩ := h
    obtain rfl := Sum.inl.inj (Except.ok.inj h)
    have htokens : next.tokens = tokens := by
      unfold replayToken at hnext
      split_ifs at hnext
      · rcases literalLengths with _ | ⟨length, literalLengths⟩
        · cases hnext
        · simp only [replayLiterals] at hnext
          split_ifs at hnext
          rw [← Except.ok.inj hnext]
      · rcases matchLengths with _ | ⟨length, matchLengths⟩
        · cases hnext
        rcases distances with _ | ⟨distance, distances⟩
        · cases hnext
        simp only [replayMatch] at hnext
        split_ifs at hnext
        obtain ⟨output, -, hnext⟩ := Except.bind_eq_ok_iff.mp hnext
        rw [← Except.ok.inj hnext]
    rw [htokens]
    exact Nat.lt_succ_self _

/-- Every block of at most 16 MiB is restored. Its tokens lead to it, the five streams agree on
how many of them there are and none is longer than the block, every number takes at most five
bytes, and the decoder uses up the streams it reads. -/
theorem lz_rans_round_trip (block : Bytes) (hblock : block.length ≤ 2 ^ 24) :
    ∃ tokens payload, parse rule block = .ok tokens ∧ Emits InRange [] tokens block ∧
      Consistent tokens ∧ (∀ stream ∈ (streams tokens).toList, stream.length ≤ block.length) ∧
      (∀ n ∈ literalCounts tokens ++ matchCounts tokens ++ distanceCounts tokens,
        (encodeVarint n).length ≤ 5) ∧
      encode block = .ok payload ∧
      (block ≠ [] → readStreams payload block.length = .ok (streams tokens)) ∧
      readTokens (streams tokens) = .ok ⟨(streams tokens).tokens, (streams tokens).literals,
        literalCounts tokens, matchCounts tokens, distanceCounts tokens, []⟩ ∧
      Iteration.Visits (round block.length) ⟨(streams tokens).tokens, (streams tokens).literals,
        literalCounts tokens, matchCounts tokens, distanceCounts tokens, []⟩
        ⟨[], [], [], [], [], block⟩ ∧
      decode payload block.length = .ok block := by
  obtain ⟨tokens, htokens, hemits⟩ := parse_emits rule_sound rule_emitting block
  have hlt : block.length < 0x80 ^ 5 := hblock.trans_lt (by norm_num)
  have hstreams : ∀ stream ∈ (streams tokens).toList, stream.length ≤ block.length :=
    fun stream hstream => streams_length_le hemits stream hstream
  have hnumbers : ∀ n ∈ literalCounts tokens ++ matchCounts tokens ++ distanceCounts tokens,
      (encodeVarint n).length ≤ 5 := by
    obtain ⟨hliterals, hmatches, hdistances⟩ := counts_lt hemits hlt
    intro n hn
    apply encodeVarint_length_of_lt
    rcases List.mem_append.mp hn with hn | hn
    · rcases List.mem_append.mp hn with hn | hn
      · exact hliterals n hn
      · exact hmatches n hn
    · exact hdistances n hn
  have hread := readTokens_streams hemits hlt
  have hvisits := replay_visits hemits
  obtain ⟨encoded, words, hencoded, hwords, hpayload⟩ := readStreams_encoded hblock hstreams
  by_cases hempty : block = []
  · refine ⟨tokens, [], htokens, hemits, consistent tokens, hstreams, hnumbers, if_pos hempty,
      fun hne => absurd hempty hne, hread, hvisits, ?_⟩
    subst hempty
    rfl
  · refine ⟨tokens, magic ++ words ++ encoded.flatten, htokens, hemits, consistent tokens, hstreams,
      hnumbers, ?_, fun _ => hpayload, hread, hvisits, ?_⟩
    · simp only [encode, if_neg hempty, tokenize, htokens, hencoded, hwords, bind, Except.bind]
    · have hlength : block.length ≠ 0 := fun h => hempty (List.length_eq_zero_iff.mp h)
      have hlast : round block.length ⟨[], [], [], [], [], block⟩ = .ok (.inr block) := by
        simp [round]
      simp only [decode, if_neg hlength, hpayload, hread, bind, Except.bind]
      exact Iteration.run_of_ends (fun _ _ => round_next) (.of_visits hvisits (.stop hlast))
        (Nat.lt_succ_self _)

/-- A block of one byte. -/
theorem lz_rans_round_trip_one_byte :
    [(7 : UInt8)].length ≤ 2 ^ 24 ∧ ∃ payload, encode [7] = .ok payload ∧ decode payload 1 = .ok [7] := by
  have hblock : [(7 : UInt8)].length ≤ 2 ^ 24 := by norm_num
  obtain ⟨_, payload, -, -, -, -, -, hencode, -, -, -, hdecode⟩ := lz_rans_round_trip [7] hblock
  exact ⟨hblock, payload, hencode, hdecode⟩

end MosaicArchive.Modes.LzRansMode
