import MosaicArchive.Binding.ControlText
import MosaicArchive.Numbers.Decimal
import MosaicArchive.Numbers.Runs
import Mathlib.Data.List.TakeWhile

/-!
The text of an identifier set is canonical: `_format_id_set` writes one component
for each maximal run, `_parse_id_set` expands the components, and each is the
inverse of the other. The parser bounds a component before it expands it.
-/

namespace MosaicArchive.Binding

open Utf8 (Text)

/-! ### Numbers -/

theorem isAsciiDigit_eq (c : Char) : isAsciiDigit c = c.isDigit := by
  rw [Bool.eq_iff_iff, isAsciiDigit, decide_eq_true_eq, Char.isDigit_iff_toNat]
  rfl

theorem digitsToNat_eq (digits : Text) : digitsToNat digits = Nat.ofDigitChars 10 digits 0 :=
  Nat.ofDigitChars_eq_foldl.symm

theorem toList_toString (n : ℕ) : (toString n).toList = Nat.toDigits 10 n := by
  rw [Nat.toString_eq_repr, Nat.toList_repr]

theorem all_isAsciiDigit (n : ℕ) : ∀ c ∈ Nat.toDigits 10 n, isAsciiDigit c = true := by
  intro c hc
  rw [isAsciiDigit_eq]
  exact (Decimal.canonical_toDigits n).isDigit c hc

theorem intOfDigits_toDigits {n : ℕ} (h : n < 10 ^ maxStrDigits) :
    intOfDigits (Nat.toDigits 10 n) = .ok n := by
  have hlength : (Nat.toDigits 10 n).length ≤ maxStrDigits :=
    (Nat.length_toDigits_le_iff (by omega) (by decide)).mpr h
  rw [intOfDigits, if_neg (Nat.not_lt.mpr hlength), digitsToNat_eq, Nat.ofDigitChars_ten_toDigits]

theorem small_lt {n : ℕ} (h : n < 2 ^ 64) : n < 10 ^ maxStrDigits := by
  have hpow : 10 ^ 20 ≤ 10 ^ maxStrDigits := Nat.pow_le_pow_right (by omega) (by decide)
  omega

/-! ### Components -/

theorem formatRange_eq (start previous : ℕ) : formatRange start previous =
    if start = previous then Nat.toDigits 10 start
    else Nat.toDigits 10 start ++ '-' :: Nat.toDigits 10 previous := by
  rw [formatRange, toList_toString, toList_toString]

theorem not_mem_toDigits {c : Char} (hc : isAsciiDigit c = false) (n : ℕ) : c ∉ Nat.toDigits 10 n := by
  intro hmem
  rw [all_isAsciiDigit n c hmem] at hc
  cases hc

theorem comma_not_mem_formatRange (start previous : ℕ) : ',' ∉ formatRange start previous := by
  rw [formatRange_eq]
  have hdigits : ∀ n, ',' ∉ Nat.toDigits 10 n := not_mem_toDigits (by decide)
  split
  · exact hdigits start
  · intro hmem
    rcases List.mem_append.mp hmem with hmem | hmem
    · exact hdigits start hmem
    · rcases List.mem_cons.mp hmem with hmem | hmem
      · cases hmem
      · exact hdigits previous hmem

theorem takeWhile_toDigits (n : ℕ) : (Nat.toDigits 10 n).takeWhile isAsciiDigit = Nat.toDigits 10 n :=
  List.takeWhile_eq_self_iff.mpr (all_isAsciiDigit n)

theorem dropWhile_toDigits (n : ℕ) : (Nat.toDigits 10 n).dropWhile isAsciiDigit = [] :=
  List.dropWhile_eq_nil_iff.mpr (all_isAsciiDigit n)

/-- The component of a range is matched with the numerals of its two ends. -/
theorem matchCpusetComponent_formatRange (start previous : ℕ) :
    matchCpusetComponent (formatRange start previous) = some (Nat.toDigits 10 start,
      if start = previous then none else some (Nat.toDigits 10 previous)) := by
  rw [formatRange_eq]
  by_cases hsame : start = previous
  · rw [if_pos hsame, if_pos hsame, matchCpusetComponent, takeWhile_toDigits,
      if_neg Nat.toDigits_ne_nil, dropWhile_toDigits]
  · have htake : (Nat.toDigits 10 start ++ '-' :: Nat.toDigits 10 previous).takeWhile isAsciiDigit =
        Nat.toDigits 10 start := by
      rw [List.takeWhile_append_of_pos (all_isAsciiDigit start)]
      simp [show isAsciiDigit '-' = false by decide]
    have hdrop : (Nat.toDigits 10 start ++ '-' :: Nat.toDigits 10 previous).dropWhile isAsciiDigit =
        '-' :: Nat.toDigits 10 previous := by
      rw [List.dropWhile_append_of_pos (all_isAsciiDigit start)]
      simp [show isAsciiDigit '-' = false by decide]
    have hall : (Nat.toDigits 10 previous).all isAsciiDigit = true :=
      List.all_eq_true.mpr (all_isAsciiDigit previous)
    rw [if_neg hsame, if_neg hsame, matchCpusetComponent, htake, if_neg Nat.toDigits_ne_nil, hdrop]
    simp only [hall, ne_eq, Nat.toDigits_ne_nil, not_false_eq_true, and_self, if_true]

/-- The components of a list are those of its runs. -/
theorem formatRanges_eq (start previous : ℕ) (values : List ℕ) :
    formatRanges start previous values =
      (Runs.groupFrom start previous values).map fun r => formatRange r.1 r.2 := by
  induction values generalizing start previous with
  | nil => rfl
  | cons value values ih =>
      rw [formatRanges, Runs.groupFrom]
      split
      · exact ih start value
      · rw [List.map_cons, ih]

theorem formatIdSet_eq (values : List ℕ) : formatIdSet values =
    List.intercalate [','] ((Runs.group values).map fun r => formatRange r.1 r.2) := by
  cases values with
  | nil => rfl
  | cons value values => rw [formatIdSet, Runs.group, formatRanges_eq]

theorem splitOn_components {runs : List (ℕ × ℕ)} (h : runs ≠ []) :
    (List.intercalate [','] (runs.map fun r => formatRange r.1 r.2)).splitOn ',' =
      runs.map fun r => formatRange r.1 r.2 := by
  refine List.splitOn_intercalate ',' ?_ (by simpa using h)
  intro component hcomponent
  obtain ⟨r, -, rfl⟩ := List.mem_map.mp hcomponent
  exact comma_not_mem_formatRange r.1 r.2

theorem group_ne_nil {values : List ℕ} (h : values ≠ []) : Runs.group values ≠ [] := by
  intro hgroup
  have hexpand := Runs.expand_group values
  rw [hgroup] at hexpand
  exact h hexpand.symm

/-- Every maximal run is written as one component. -/
theorem splitOn_formatIdSet {values : List ℕ} (h : values ≠ []) :
    (formatIdSet values).splitOn ',' =
      (Runs.group values).map fun r => formatRange r.1 r.2 := by
  rw [formatIdSet_eq, splitOn_components (group_ne_nil h)]

/-! ### Parsing -/

/-- The components of ranges are expanded, while the bound is kept. -/
theorem parseIdComponents_formatRange (context : String) {runs : List (ℕ × ℕ)} {result : List ℕ}
    (hruns : ∀ r ∈ runs, r.1 ≤ r.2 ∧ r.2 < 10 ^ maxStrDigits)
    (hlength : result.length + (Runs.expand runs).length ≤ maxCpusetItems) :
    parseIdComponents context (runs.map fun r => formatRange r.1 r.2) result =
      .ok (result ++ Runs.expand runs) := by
  induction runs generalizing result with
  | nil =>
      rw [Runs.expand_nil, List.append_nil]
      rfl
  | cons r runs ih =>
      rw [List.forall_mem_cons] at hruns
      obtain ⟨⟨hle, hsmall⟩, hruns⟩ := hruns
      rw [Runs.expand_cons, List.length_append, Runs.expandRange_length] at hlength
      have hstart : intOfDigits (Nat.toDigits 10 r.1) = .ok r.1 := intOfDigits_toDigits (by omega)
      have hstop : intOfDigits ((if r.1 = r.2 then none else some (Nat.toDigits 10 r.2)).getD
          (Nat.toDigits 10 r.1)) = .ok r.2 := by
        by_cases hsame : r.1 = r.2
        · rw [if_pos hsame, Option.getD_none, hstart, hsame]
        · rw [if_neg hsame, Option.getD_some, intOfDigits_toDigits hsmall]
      have hcount : r.2 - r.1 + 1 = r.2 + 1 - r.1 := by omega
      have hbound : ¬ (r.2 - r.1 + 1 > maxCpusetItems ∨
          result.length + (r.2 - r.1 + 1) > maxCpusetItems) := by
        omega
      rw [List.map_cons, parseIdComponents, matchCpusetComponent_formatRange]
      simp only [hstart, hstop, Except.raiseIf, if_neg (Nat.not_lt.mpr hle), if_neg hbound, bind,
        Except.bind]
      have hroom : (result ++ List.range' r.1 (r.2 - r.1 + 1)).length + (Runs.expand runs).length ≤
          maxCpusetItems := by
        rw [List.length_append, List.length_range']
        omega
      rw [ih hruns hroom, Runs.expand_cons, Runs.expandRange, hcount, List.append_assoc]

/-- Whatever the components are, the list never grows beyond the bound. -/
theorem parseIdComponents_bounded {context : String} {components : List Text} {result final : List ℕ}
    (hresult : result.length ≤ maxCpusetItems)
    (h : parseIdComponents context components result = .ok final) : final.length ≤ maxCpusetItems := by
  induction components generalizing result with
  | nil =>
      cases h
      exact hresult
  | cons component components ih =>
      rw [parseIdComponents] at h
      split at h
      · cases h
      · simp only [Except.bind_eq_ok_iff, Except.raiseIf_eq_ok] at h
        obtain ⟨start, -, stop, -, -, -, -, hbound, h⟩ := h
        refine ih ?_ h
        rw [List.length_append, List.length_range']
        omega

/-- A text without its optional final newline. -/
def withoutNewline (value : Text) : Text := if value.getLast? = some '\n' then value.dropLast else value

theorem singleLine_text_eq_ok {value line : Text} {context : String} :
    singleLine (.text value) context = .ok line ↔ (Utf8.encode value).length ≤ maxControlBytes ∧
      line = withoutNewline value ∧ '\n' ∉ line ∧ '\r' ∉ line ∧ '\x00' ∉ line := by
  simp only [singleLine, Except.bind_eq_ok_iff, Except.raiseIf_eq_ok, exists_and_left, exists_const,
    gt_iff_lt, not_lt, not_or, pure, Except.pure, Except.ok.injEq]
  constructor
  · rintro ⟨hlength, hline, rfl⟩
    exact ⟨hlength, rfl, hline⟩
  · rintro ⟨hlength, rfl, hline⟩
    exact ⟨hlength, hline, rfl⟩

theorem strictly_increasing_of_sorted {values : List ℕ}
    (h : values.dedup.insertionSort (· ≤ ·) = values) : values.Pairwise (· < ·) := by
  have hsorted : values.Pairwise (· ≤ ·) := by
    rw [← h]
    exact List.pairwise_insertionSort (· ≤ ·) values.dedup
  have hnodup : values.Nodup := by
    rw [← h]
    exact (List.perm_insertionSort (· ≤ ·) values.dedup).nodup_iff.mpr (List.nodup_dedup values)
  exact (hsorted.and hnodup).imp fun hlt => lt_of_le_of_ne hlt.1 hlt.2

theorem sorted_of_strictly_increasing {values : List ℕ} (h : values.Pairwise (· < ·)) :
    values.dedup.insertionSort (· ≤ ·) = values := by
  have hnodup : values.Nodup := h.imp fun hlt => hlt.ne
  rw [hnodup.dedup]
  exact (h.imp fun hlt => hlt.le).insertionSort_eq

/-- What the parser accepts is the rendering of its result. -/
theorem parseIdSet_spec {value : Text} {context : String} {values : List ℕ}
    (h : parseIdSet (.text value) context = .ok values) :
    values.Pairwise (· < ·) ∧ values ≠ [] ∧ values.length ≤ maxCpusetItems ∧
      formatIdSet values = withoutNewline value := by
  simp only [parseIdSet, Except.bind_eq_ok_iff, Except.raiseIf_eq_ok, exists_and_left, not_or,
    not_not] at h
  obtain ⟨line, hline, hempty, -, parsed, hparsed, ⟨hsorted, hformat⟩, -, hreturn⟩ := h
  obtain rfl := Except.ok.inj hreturn
  obtain ⟨-, rfl, -⟩ := singleLine_text_eq_ok.mp hline
  refine ⟨strictly_increasing_of_sorted hsorted, ?_, parseIdComponents_bounded (by simp) hparsed, hformat⟩
  rintro rfl
  exact hempty hformat.symm

theorem formatIdSet_ne_nil {values : List ℕ} (h : values ≠ []) : formatIdSet values ≠ [] := by
  intro hempty
  have hsplit := splitOn_formatIdSet h
  rw [hempty] at hsplit
  obtain ⟨r, runs, hgroup⟩ := List.exists_cons_of_ne_nil (group_ne_nil h)
  rw [hgroup, List.map_cons] at hsplit
  have hhead : formatRange r.1 r.2 = [] := (List.cons.inj hsplit).1.symm
  rw [formatRange_eq] at hhead
  split at hhead
  · exact Nat.toDigits_ne_nil hhead
  · exact Nat.toDigits_ne_nil (List.append_eq_nil_iff.mp hhead).1

/-- The characters of components that are ranges. -/
theorem mem_components {runs : List (ℕ × ℕ)} {c : Char}
    (h : c ∈ List.intercalate [','] (runs.map fun r => formatRange r.1 r.2)) :
    isAsciiDigit c = true ∨ c = '-' ∨ c = ',' := by
  have hrange (start previous : ℕ) (hc : c ∈ formatRange start previous) :
      isAsciiDigit c = true ∨ c = '-' ∨ c = ',' := by
    rw [formatRange_eq] at hc
    split at hc
    · exact Or.inl (all_isAsciiDigit start c hc)
    · rcases List.mem_append.mp hc with hc | hc
      · exact Or.inl (all_isAsciiDigit start c hc)
      · rcases List.mem_cons.mp hc with hc | hc
        · exact Or.inr (Or.inl hc)
        · exact Or.inl (all_isAsciiDigit previous c hc)
  induction runs with
  | nil => cases h
  | cons r runs ih =>
      cases runs with
      | nil =>
          rw [List.map_cons, List.map_nil, List.intercalate_singleton] at h
          exact hrange r.1 r.2 h
      | cons s runs =>
          rw [List.map_cons, List.map_cons, List.intercalate_cons_cons] at h
          rcases List.mem_append.mp h with h | h
          · rcases List.mem_append.mp h with h | h
            · exact hrange r.1 r.2 h
            · exact Or.inr (Or.inr (List.mem_singleton.mp h))
          · exact ih h

theorem mem_formatIdSet {values : List ℕ} {c : Char} (h : c ∈ formatIdSet values) :
    isAsciiDigit c = true ∨ c = '-' ∨ c = ',' := by
  rw [formatIdSet_eq] at h
  exact mem_components h

/-- A set within the bounds is read back from its rendering, with or without a final newline. -/
theorem parseIdSet_of_format {value : Text} {values : List ℕ} (context : String)
    (hsorted : values.Pairwise (· < ·)) (hne : values ≠ []) (hlength : values.length ≤ maxCpusetItems)
    (hsmall : ∀ n ∈ values, n < 10 ^ maxStrDigits)
    (hbytes : (Utf8.encode value).length ≤ maxControlBytes)
    (hvalue : withoutNewline value = formatIdSet values) :
    parseIdSet (.text value) context = .ok values := by
  have hline : singleLine (.text value) context = .ok (formatIdSet values) := by
    rw [singleLine_text_eq_ok]
    refine ⟨hbytes, hvalue.symm, ?_, ?_, ?_⟩ <;>
    · intro hmem
      rcases mem_formatIdSet hmem with hdigit | hc | hc
      · revert hdigit
        decide
      · cases hc
      · cases hc
  have hruns : ∀ r ∈ Runs.group values, r.1 ≤ r.2 ∧ r.2 < 10 ^ maxStrDigits := by
    intro r hr
    have hle := (Runs.spaced_group hsorted).nonempty r hr
    refine ⟨hle, hsmall r.2 ?_⟩
    rw [← Runs.expand_group values, Runs.mem_expand]
    exact ⟨r, hr, hle, le_rfl⟩
  have hroom : ([] : List ℕ).length + (Runs.expand (Runs.group values)).length ≤ maxCpusetItems := by
    rw [Runs.expand_group]
    simpa using hlength
  have hparsed := parseIdComponents_formatRange context hruns hroom
  rw [Runs.expand_group, List.nil_append] at hparsed
  simp only [parseIdSet, hline, bind, Except.bind, Except.raiseIf, if_neg (formatIdSet_ne_nil hne),
    splitOn_formatIdSet hne, hparsed, sorted_of_strictly_increasing hsorted, ne_eq, not_true_eq_false,
    or_self, if_false]
  rfl

end MosaicArchive.Binding
