import MosaicArchive.Json.Machine

/-!
The grammar of JSON texts, with the depth to which arrays and objects are nested, and the
parser's runs on them. What the grammar derives the parser reads to the end, and the containers
it has open on the way are as many as the depth.
-/

namespace Json

/-! ### The grammar -/

def Spaces (text : List Char) : Prop := ∀ c ∈ text, isSpace c = true

def Digits (text : List Char) : Prop := text ≠ [] ∧ ∀ c ∈ text, c.isDigit = true

inductive IntegerPart : List Char → Prop
  | zero : IntegerPart ['0']
  | digits {c : Char} {text : List Char} : c.isDigit = true → c ≠ '0' →
      (∀ d ∈ text, d.isDigit = true) → IntegerPart (c :: text)

inductive FractionPart : List Char → Prop
  | none : FractionPart []
  | digits {text : List Char} : Digits text → FractionPart ('.' :: text)

inductive ExponentPart : List Char → Prop
  | none : ExponentPart []
  | digits {e : Char} {text : List Char} : isExponent e = true → Digits text →
      ExponentPart (e :: text)
  | signed {e sign : Char} {text : List Char} : isExponent e = true → isSign sign = true →
      Digits text → ExponentPart (e :: sign :: text)

inductive IsNumber : List Char → Prop
  | positive {i f e : List Char} : IntegerPart i → FractionPart f → ExponentPart e →
      IsNumber (i ++ f ++ e)
  | negative {i f e : List Char} : IntegerPart i → FractionPart f → ExponentPart e →
      IsNumber ('-' :: (i ++ f ++ e))

/-- A string behind its first quote. -/
inductive StringTail : List Char → Prop
  | close : StringTail ['"']
  | plain {c : Char} {text : List Char} : isPlain c = true → StringTail text → StringTail (c :: text)
  | escape {c : Char} {text : List Char} : isEscape c = true → StringTail text →
      StringTail ('\\' :: c :: text)
  | unicode {h₁ h₂ h₃ h₄ : Char} {text : List Char} : isHex h₁ = true → isHex h₂ = true →
      isHex h₃ = true → isHex h₄ = true → StringTail text →
      StringTail ('\\' :: 'u' :: h₁ :: h₂ :: h₃ :: h₄ :: text)

inductive Symbol where
  | value
  | element
  | elements
  | member
  | members
  deriving DecidableEq

/-- The texts of a symbol, with the depth to which arrays and objects are nested in them. -/
inductive Derives : Symbol → List Char → ℕ → Prop
  | true : Derives .value ['t', 'r', 'u', 'e'] 0
  | false : Derives .value ['f', 'a', 'l', 's', 'e'] 0
  | null : Derives .value ['n', 'u', 'l', 'l'] 0
  | number {text : List Char} : IsNumber text → Derives .value text 0
  | string {tail : List Char} : StringTail tail → Derives .value ('"' :: tail) 0
  | emptyArray {spaces : List Char} : Spaces spaces →
      Derives .value ('[' :: (spaces ++ [']'])) 1
  | array {text : List Char} {depth : ℕ} : Derives .elements text depth →
      Derives .value ('[' :: (text ++ [']'])) (depth + 1)
  | emptyObject {spaces : List Char} : Spaces spaces →
      Derives .value ('\x7b' :: (spaces ++ ['\x7d'])) 1
  | object {text : List Char} {depth : ℕ} : Derives .members text depth →
      Derives .value ('\x7b' :: (text ++ ['\x7d'])) (depth + 1)
  | element {before value after : List Char} {depth : ℕ} : Spaces before →
      Derives .value value depth → Spaces after → Derives .element (before ++ value ++ after) depth
  | lastElement {text : List Char} {depth : ℕ} : Derives .element text depth →
      Derives .elements text depth
  | elements {text rest : List Char} {depth depth' : ℕ} : Derives .element text depth →
      Derives .elements rest depth' → Derives .elements (text ++ ',' :: rest) (max depth depth')
  | member {before tail after text : List Char} {depth : ℕ} : Spaces before → StringTail tail →
      Spaces after → Derives .element text depth →
      Derives .member (before ++ '"' :: (tail ++ after ++ ':' :: text)) depth
  | lastMember {text : List Char} {depth : ℕ} : Derives .member text depth →
      Derives .members text depth
  | members {text rest : List Char} {depth depth' : ℕ} : Derives .member text depth →
      Derives .members rest depth' → Derives .members (text ++ ',' :: rest) (max depth depth')

/-- A JSON text, and the depth to which arrays and objects are nested in it. -/
def IsJson (text : List Char) (depth : ℕ) : Prop := Derives .element text depth

/-! ### Runs -/

/-- The parser reads the text, with at most this many containers open on the way. -/
inductive Reads : State → List Char → State → ℕ → Prop
  | done (s : State) : Reads s [] s s.opened.length
  | next {s t u : State} {c : Char} {text : List Char} {peak : ℕ} : step s c = some t →
      Reads t text u peak → Reads s (c :: text) u (max s.opened.length peak)

theorem Reads.run_eq {s t : State} {text : List Char} {peak : ℕ} (h : Reads s text t peak) :
    run s text = some t := by
  induction h with
  | done s => rfl
  | next hstep _ ih => simpa [run, hstep] using ih

theorem exists_reads {s t : State} {text : List Char} (h : run s text = some t) :
    ∃ peak, Reads s text t peak := by
  induction text generalizing s with
  | nil =>
      obtain rfl := Option.some.inj h
      exact ⟨_, .done s⟩
  | cons c text ih =>
      obtain ⟨u, hu, hrest⟩ := Option.bind_eq_some_iff.mp h
      obtain ⟨peak, hreads⟩ := ih hrest
      exact ⟨_, .next hu hreads⟩

theorem Reads.last_le {s t : State} {text : List Char} {peak : ℕ} (h : Reads s text t peak) :
    t.opened.length ≤ peak := by
  induction h with
  | done s => exact le_rfl
  | next _ _ ih => exact ih.trans (le_max_right _ _)

theorem Reads.first_le {s t : State} {text : List Char} {peak : ℕ} (h : Reads s text t peak) :
    s.opened.length ≤ peak := by
  cases h with
  | done => exact le_rfl
  | next _ _ => exact le_max_left _ _

theorem Reads.append {s t u : State} {text text' : List Char} {peak peak' : ℕ}
    (h : Reads s text t peak) (h' : Reads t text' u peak') :
    Reads s (text ++ text') u (max peak peak') := by
  induction h with
  | done s => rwa [List.nil_append, max_eq_right h'.first_le]
  | next hstep _ ih =>
      rw [List.cons_append, max_assoc]
      exact .next hstep (ih h')

/-- Runs in which nothing stays open and nothing is opened. -/
abbrev Flat (opened : List Container) (mode : Mode) (text : List Char) (mode' : Mode) : Prop :=
  Reads ⟨opened, mode⟩ text ⟨opened, mode'⟩ opened.length

theorem Flat.next {opened : List Container} {mode mode' mode'' : Mode} {c : Char}
    {text : List Char} (hstep : step ⟨opened, mode⟩ c = some ⟨opened, mode'⟩)
    (h : Flat opened mode' text mode'') : Flat opened mode (c :: text) mode'' := by
  have hreads := Reads.next hstep h
  rwa [max_self] at hreads

theorem Flat.append {opened : List Container} {mode mode' mode'' : Mode} {text text' : List Char}
    (h : Flat opened mode text mode') (h' : Flat opened mode' text' mode'') :
    Flat opened mode (text ++ text') mode'' := by
  have hreads := Reads.append h h'
  rwa [max_self] at hreads

theorem flat_of_forall {opened : List Container} {mode : Mode} {text : List Char}
    (h : ∀ c ∈ text, step ⟨opened, mode⟩ c = some ⟨opened, mode⟩) : Flat opened mode text mode := by
  induction text with
  | nil => exact .done _
  | cons c text ih =>
      exact .next (h c List.mem_cons_self) (ih fun d hd => h d (List.mem_cons_of_mem c hd))

/-! ### Scalars -/

/-- A value may have ended. -/
def Mode.ended : Mode → Bool
  | .after => true
  | .number n => n.final
  | _ => false

theorem flat_digits {opened : List Container} {n : NumberMode} {text : List Char}
    (hnext : ∀ c : Char, c.isDigit = true → n.next c = some n)
    (h : ∀ c ∈ text, c.isDigit = true) : Flat opened (.number n) text (.number n) :=
  flat_of_forall fun c hc => by simp only [step, hnext c (h c hc)]

theorem flat_digits_from {opened : List Container} {n m : NumberMode} {text : List Char}
    (hfirst : ∀ c : Char, c.isDigit = true → n.next c = some m)
    (hnext : ∀ c : Char, c.isDigit = true → m.next c = some m)
    (h : Digits text) : Flat opened (.number n) text (.number m) := by
  obtain ⟨hne, hdigits⟩ := h
  cases text with
  | nil => exact absurd rfl hne
  | cons c text =>
      refine .next ?_ (flat_digits hnext fun d hd => hdigits d (List.mem_cons_of_mem c hd))
      simp only [step, hfirst c (hdigits c List.mem_cons_self)]

theorem step_number {opened : List Container} {n m : NumberMode} {c : Char}
    (h : n.next c = some m) : step ⟨opened, .number n⟩ c = some ⟨opened, .number m⟩ := by
  simp only [step, h]

theorem not_isDigit_of_isExponent {c : Char} (h : isExponent c = true) :
    c.isDigit = false ∧ c ≠ '.' := by
  rw [isExponent, Bool.or_eq_true, beq_iff_eq, beq_iff_eq] at h
  rcases h with rfl | rfl <;> decide

theorem not_isDigit_of_isSign {c : Char} (h : isSign c = true) : c.isDigit = false := by
  rw [isSign, Bool.or_eq_true, beq_iff_eq, beq_iff_eq] at h
  rcases h with rfl | rfl <;> decide

theorem reads_fraction {opened : List Container} {n : NumberMode} {text : List Char}
    (hn : n = .zero ∨ n = .integer) (h : FractionPart text) :
    ∃ m, (m = .zero ∨ m = .integer ∨ m = .fraction) ∧
      Flat opened (.number n) text (.number m) := by
  cases h with
  | none => exact ⟨n, by tauto, .done _⟩
  | digits hdigits =>
      have hpoint : n.next '.' = some .point := by rcases hn with rfl | rfl <;> rfl
      have hnext (m : NumberMode) (hm : m = .point ∨ m = .fraction) (c : Char)
          (hc : c.isDigit = true) : m.next c = some .fraction := by
        rcases hm with rfl | rfl <;> simp [NumberMode.next, hc]
      exact ⟨.fraction, Or.inr (Or.inr rfl), .next (step_number hpoint)
        (flat_digits_from (hnext _ (Or.inl rfl)) (hnext _ (Or.inr rfl)) hdigits)⟩

theorem reads_exponent {opened : List Container} {n : NumberMode} {text : List Char}
    (hn : n = .zero ∨ n = .integer ∨ n = .fraction) (h : ExponentPart text) :
    ∃ m : NumberMode, m.final = true ∧ Flat opened (.number n) text (.number m) := by
  have hfirst {e : Char} (he : isExponent e = true) : n.next e = some .exponent := by
    obtain ⟨hdigit, hdot⟩ := not_isDigit_of_isExponent he
    rcases hn with rfl | rfl | rfl <;> simp [NumberMode.next, he, hdigit, hdot]
  have hnext (m : NumberMode) (hm : m = .exponent ∨ m = .exponentSign ∨ m = .exponentDigits)
      (c : Char) (hc : c.isDigit = true) : m.next c = some .exponentDigits := by
    rcases hm with rfl | rfl | rfl <;> simp [NumberMode.next, hc]
  cases h with
  | none =>
      refine ⟨n, ?_, .done _⟩
      rcases hn with rfl | rfl | rfl <;> rfl
  | digits he hdigits =>
      exact ⟨.exponentDigits, rfl, .next (step_number (hfirst he))
        (flat_digits_from (hnext _ (Or.inl rfl)) (hnext _ (Or.inr (Or.inr rfl))) hdigits)⟩
  | signed he hsign hdigits =>
      refine ⟨.exponentDigits, rfl, .next (step_number (hfirst he)) (.next (step_number ?_)
        (flat_digits_from (hnext _ (Or.inr (Or.inl rfl))) (hnext _ (Or.inr (Or.inr rfl)))
          hdigits))⟩
      simp [NumberMode.next, hsign, not_isDigit_of_isSign hsign]

theorem reads_integer {opened : List Container} {mode : Mode} {text : List Char}
    (hzero : step ⟨opened, mode⟩ '0' = some ⟨opened, .number .zero⟩)
    (hdigit : ∀ c : Char, c.isDigit = true → c ≠ '0' →
      step ⟨opened, mode⟩ c = some ⟨opened, .number .integer⟩)
    (h : IntegerPart text) :
    ∃ m, (m = .zero ∨ m = .integer) ∧ Flat opened mode text (.number m) := by
  cases h with
  | zero => exact ⟨.zero, Or.inl rfl, .next hzero (.done _)⟩
  | digits hc hne hdigits =>
      have hnext (c : Char) (hc : c.isDigit = true) : NumberMode.integer.next c = some .integer := by
        simp [NumberMode.next, hc]
      exact ⟨.integer, Or.inr rfl, .next (hdigit _ hc hne) (flat_digits hnext hdigits)⟩

/-- A number, from where its first digit may stand. -/
theorem reads_unsigned {opened : List Container} {mode : Mode} {i f e : List Char}
    (hzero : step ⟨opened, mode⟩ '0' = some ⟨opened, .number .zero⟩)
    (hdigit : ∀ c : Char, c.isDigit = true → c ≠ '0' →
      step ⟨opened, mode⟩ c = some ⟨opened, .number .integer⟩)
    (hi : IntegerPart i) (hf : FractionPart f) (he : ExponentPart e) :
    ∃ m : NumberMode, m.final = true ∧ Flat opened mode (i ++ f ++ e) (.number m) := by
  obtain ⟨n, hn, hinteger⟩ := reads_integer hzero hdigit hi
  obtain ⟨m, hm, hfraction⟩ := reads_fraction hn hf
  obtain ⟨l, hl, hexponent⟩ := reads_exponent hm he
  exact ⟨l, hl, Flat.append (Flat.append hinteger hfraction) hexponent⟩

/-- A value may start. -/
def Mode.startsValue (mode : Mode) : Prop := mode = .value ∨ mode = .firstElement

theorem step_startValue {opened : List Container} {mode : Mode} {c : Char}
    (hmode : mode.startsValue) (hspace : isSpace c = false) (hclose : c ≠ ']') :
    step ⟨opened, mode⟩ c = startValue opened c := by
  rcases hmode with rfl | rfl <;> simp [step, hspace, hclose]

theorem startValue_of_isDigit {opened : List Container} {c : Char} (hc : c.isDigit = true) :
    startValue opened c =
      some ⟨opened, .number (if c = '0' then .zero else .integer)⟩ := by
  have hne (d : Char) (hd : d.isDigit = false) : c ≠ d := by
    rintro rfl
    simp [hc] at hd
  have hfirst : NumberMode.first c = some (if c = '0' then .zero else .integer) := by
    rw [NumberMode.first, if_neg (hne '-' rfl), if_pos hc]
    split_ifs <;> rfl
  rw [startValue, if_neg (hne '"' rfl), if_neg (hne '[' rfl), if_neg (hne '\x7b' rfl), startScalar,
    hfirst]
  rfl

theorem not_isSpace_of_isDigit {c : Char} (hc : c.isDigit = true) :
    isSpace c = false ∧ c ≠ ']' := by
  have hne (d : Char) (hd : d.isDigit = false) : c ≠ d := by
    rintro rfl
    simp [hc] at hd
  simp [isSpace, hne ' ' rfl, hne '\t' rfl, hne '\n' rfl, hne '\r' rfl, hne ']' rfl]

theorem reads_number {opened : List Container} {mode : Mode} {text : List Char}
    (hmode : mode.startsValue) (h : IsNumber text) :
    ∃ m : NumberMode, m.final = true ∧ Flat opened mode text (.number m) := by
  cases h with
  | positive hi hf he =>
      have hstep {c : Char} (hc : c.isDigit = true) : step ⟨opened, mode⟩ c =
          some ⟨opened, .number (if c = '0' then .zero else .integer)⟩ := by
        obtain ⟨hspace, hclose⟩ := not_isSpace_of_isDigit hc
        rw [step_startValue hmode hspace hclose, startValue_of_isDigit hc]
      refine reads_unsigned (hstep rfl) (fun c hc hne => ?_) hi hf he
      rw [hstep hc, if_neg hne]
  | negative hi hf he =>
      have hminus : step ⟨opened, mode⟩ '-' = some ⟨opened, .number .minus⟩ :=
        step_startValue hmode rfl (by decide)
      have hzero : NumberMode.minus.next '0' = some .zero := rfl
      have hdigit (c : Char) (hc : c.isDigit = true) (hne : c ≠ '0') :
          NumberMode.minus.next c = some .integer := by simp [NumberMode.next, hne, hc]
      obtain ⟨m, hm, hflat⟩ := @reads_unsigned opened _ _ _ _ (step_number hzero)
        (fun c hc hne => step_number (hdigit c hc hne)) hi hf he
      exact ⟨m, hm, .next hminus hflat⟩

theorem reads_tail {opened : List Container} {isKey : Bool} {text : List Char}
    (h : StringTail text) : Flat opened (.string isKey) text (afterString isKey) := by
  induction h with
  | close => exact .next rfl (.done _)
  | plain hc _ ih =>
      refine .next ?_ ih
      have hquote := hc
      simp only [isPlain, Bool.and_eq_true, bne_iff_ne, ne_eq] at hquote
      simp [step, hquote.1.1, hquote.1.2, hc]
  | @escape c _ hc _ ih =>
      refine .next rfl (.next ?_ ih)
      have hu : c ≠ 'u' := by
        rintro rfl
        cases hc
      simp only [step, if_neg hu, hc, if_true]
  | unicode h₁ h₂ h₃ h₄ _ ih =>
      have hhex (left : ℕ) {c : Char} (hc : isHex c = true) :
          step ⟨opened, .hex isKey (left + 1)⟩ c = some ⟨opened, .hex isKey left⟩ := by
        simp [step, hc]
      have hlast {c : Char} (hc : isHex c = true) :
          step ⟨opened, .hex isKey 0⟩ c = some ⟨opened, .string isKey⟩ := by
        simp [step, hc]
      exact .next rfl (.next rfl (.next (hhex 2 h₁) (.next (hhex 1 h₂) (.next (hhex 0 h₃)
        (.next (hlast h₄) ih)))))

/-! ### Between values -/

/-- A character that may follow a value. -/
def isDelimiter (c : Char) : Bool := isSpace c || c == ',' || c == ']' || c == '\x7d'

theorem final_next {n : NumberMode} {c : Char} (hn : n.final = true) (hc : isDelimiter c = true) :
    n.next c = none ∧ n ≠ .minus := by
  have hcases : c ∈ [' ', '\t', '\n', '\r', ',', ']', '\x7d'] := by
    simpa [isDelimiter, isSpace, or_assoc] using hc
  simp only [List.mem_cons, List.not_mem_nil, or_false] at hcases
  refine ⟨?_, by rintro rfl; cases hn⟩
  rcases hcases with rfl | rfl | rfl | rfl | rfl | rfl | rfl <;> cases n <;> rfl

/-- What ends a number is read as what follows a value. -/
theorem step_ended {opened : List Container} {mode : Mode} {c : Char} (hmode : mode.ended = true)
    (hc : isDelimiter c = true) : step ⟨opened, mode⟩ c = endValue opened c := by
  cases mode with
  | after => rfl
  | number n =>
      obtain ⟨hnext, hminus⟩ := final_next hmode hc
      have hfinal : n.final = true := hmode
      simp [step, hnext, hminus, hfinal]
  | _ => cases hmode

theorem reads_spaces {opened : List Container} {mode : Mode} {text : List Char}
    (hstep : ∀ c : Char, isSpace c = true → step ⟨opened, mode⟩ c = some ⟨opened, mode⟩)
    (h : Spaces text) : Flat opened mode text mode :=
  flat_of_forall fun c hc => hstep c (h c hc)

/-- Space behind a value. -/
theorem reads_spacesAfter {opened : List Container} {mode : Mode} {text : List Char}
    (hmode : mode.ended = true) (h : Spaces text) :
    ∃ mode' : Mode, mode'.ended = true ∧ Flat opened mode text mode' := by
  cases text with
  | nil => exact ⟨mode, hmode, .done _⟩
  | cons c text =>
      have hc : isSpace c = true := h c List.mem_cons_self
      have hend {c : Char} (hc : isSpace c = true) : endValue opened c = some ⟨opened, .after⟩ :=
        if_pos hc
      have hdelimiter : isDelimiter c = true := by simp [isDelimiter, hc]
      refine ⟨.after, rfl, .next ((step_ended hmode hdelimiter).trans (hend hc)) ?_⟩
      exact reads_spaces (fun c hc => hend hc) fun d hd => h d (List.mem_cons_of_mem c hd)

/-- Where a text of the symbol may start. -/
def Symbol.Starts (symbol : Symbol) (s : State) : Prop :=
  match symbol with
  | .value | .element => s.mode.startsValue
  | .elements => s.mode.startsValue ∧ s.opened.head? = some .array
  | .member => s.mode = .key ∨ s.mode = .firstKey
  | .members => (s.mode = .key ∨ s.mode = .firstKey) ∧ s.opened.head? = some .object

theorem step_space {opened : List Container} {mode : Mode} {c : Char}
    (hmode : mode.startsValue ∨ mode = .key ∨ mode = .firstKey ∨ mode = .colon)
    (hc : isSpace c = true) : step ⟨opened, mode⟩ c = some ⟨opened, mode⟩ := by
  rcases hmode with (rfl | rfl) | rfl | rfl | rfl <;> exact if_pos hc

theorem reads_container {opened : List Container} {container : Container} {mode first last : Mode}
    {o c : Char} {text : List Char} {depth : ℕ}
    (hopen : step ⟨opened, mode⟩ o = some ⟨container :: opened, first⟩)
    (hbody : Reads ⟨container :: opened, first⟩ text ⟨container :: opened, last⟩
      (opened.length + 1 + depth))
    (hclose : step ⟨container :: opened, last⟩ c = some ⟨opened, .after⟩) :
    Reads ⟨opened, mode⟩ (o :: (text ++ [c])) ⟨opened, .after⟩ (opened.length + (depth + 1)) := by
  have hreads := Reads.next hopen (hbody.append (.next hclose (.done _)))
  have hpeak : max opened.length (max (opened.length + 1 + depth)
      (max (container :: opened).length opened.length)) = opened.length + (depth + 1) := by
    rw [List.length_cons]
    omega
  rwa [hpeak] at hreads

theorem reads_list {opened : List Container} {mode last next last' : Mode} {text rest : List Char}
    {depth depth' : ℕ}
    (htext : Reads ⟨opened, mode⟩ text ⟨opened, last⟩ (opened.length + depth))
    (hcomma : step ⟨opened, last⟩ ',' = some ⟨opened, next⟩)
    (hrest : Reads ⟨opened, next⟩ rest ⟨opened, last'⟩ (opened.length + depth')) :
    Reads ⟨opened, mode⟩ (text ++ ',' :: rest) ⟨opened, last'⟩
      (opened.length + max depth depth') := by
  have hreads := htext.append (.next hcomma hrest)
  have hpeak : max (opened.length + depth) (max opened.length (opened.length + depth')) =
      opened.length + max depth depth' := by omega
  rwa [hpeak] at hreads

/-- What the grammar derives is read, with as many containers open as are nested in it. -/
theorem reads_of_derives {symbol : Symbol} {text : List Char} {depth : ℕ}
    (h : Derives symbol text depth) (opened : List Container) (mode : Mode)
    (hstart : symbol.Starts ⟨opened, mode⟩) : ∃ last : Mode, last.ended = true ∧
      Reads ⟨opened, mode⟩ text ⟨opened, last⟩ (opened.length + depth) := by
  induction h generalizing opened mode with
  | true => exact ⟨.after, rfl, Flat.next (step_startValue hstart rfl (by decide))
      (.next rfl (.next rfl (.next rfl (.done _))))⟩
  | false => exact ⟨.after, rfl, Flat.next (step_startValue hstart rfl (by decide))
      (.next rfl (.next rfl (.next rfl (.next rfl (.done _)))))⟩
  | null => exact ⟨.after, rfl, Flat.next (step_startValue hstart rfl (by decide))
      (.next rfl (.next rfl (.next rfl (.done _))))⟩
  | number hnumber =>
      obtain ⟨m, hm, hflat⟩ := reads_number hstart hnumber
      exact ⟨.number m, hm, hflat⟩
  | string htail => exact ⟨.after, rfl, Flat.next (step_startValue hstart rfl (by decide))
      (reads_tail htail)⟩
  | emptyArray hspaces =>
      refine ⟨.after, rfl, ?_⟩
      have hbody : Flat (.array :: opened) .firstElement _ .firstElement :=
        reads_spaces (fun c => step_space (Or.inl (Or.inr rfl))) hspaces
      exact reads_container (step_startValue hstart rfl (by decide)) hbody rfl
  | array _ ih =>
      obtain ⟨last, hlast, hbody⟩ := ih (.array :: opened) .firstElement ⟨Or.inr rfl, rfl⟩
      have hclose : step ⟨.array :: opened, last⟩ ']' = some ⟨opened, .after⟩ :=
        step_ended hlast rfl
      exact ⟨.after, rfl, reads_container (step_startValue hstart rfl (by decide)) hbody hclose⟩
  | emptyObject hspaces =>
      refine ⟨.after, rfl, ?_⟩
      have hbody : Flat (.object :: opened) .firstKey _ .firstKey :=
        reads_spaces (fun c => step_space (Or.inr (Or.inr (Or.inl rfl)))) hspaces
      exact reads_container (step_startValue hstart rfl (by decide)) hbody rfl
  | object _ ih =>
      obtain ⟨last, hlast, hbody⟩ := ih (.object :: opened) .firstKey ⟨Or.inr rfl, rfl⟩
      have hclose : step ⟨.object :: opened, last⟩ '\x7d' = some ⟨opened, .after⟩ :=
        step_ended hlast rfl
      exact ⟨.after, rfl, reads_container (step_startValue hstart rfl (by decide)) hbody hclose⟩
  | element hbefore _ hafter ih =>
      obtain ⟨last, hlast, hvalue⟩ := ih opened mode hstart
      obtain ⟨last', hlast', hspaces⟩ := reads_spacesAfter hlast hafter
      have hfirst : Flat opened mode _ mode :=
        reads_spaces (fun c => step_space (Or.inl hstart)) hbefore
      have hreads := (Reads.append hfirst hvalue).append hspaces
      rw [max_eq_right (Nat.le_add_right _ _), max_eq_left (Nat.le_add_right _ _)] at hreads
      exact ⟨last', hlast', hreads⟩
  | lastElement _ ih => exact ih opened mode hstart.1
  | elements _ _ ih ihrest =>
      obtain ⟨hmode, hopened⟩ := hstart
      obtain ⟨others, rfl⟩ := List.head?_eq_some_iff.mp hopened
      obtain ⟨last, hlast, htext⟩ := ih _ mode hmode
      obtain ⟨last', hlast', hrest⟩ := ihrest (.array :: others) .value ⟨Or.inl rfl, rfl⟩
      exact ⟨last', hlast', reads_list htext (step_ended hlast rfl) hrest⟩
  | member hbefore htail hafter _ ih =>
      have hmode : mode = .key ∨ mode = .firstKey := hstart
      have hquote : step ⟨opened, mode⟩ '"' = some ⟨opened, .string true⟩ := by
        rcases hmode with rfl | rfl <;> rfl
      have hfirst : Flat opened mode _ mode := reads_spaces (fun c => step_space
        (Or.inr (hmode.elim Or.inl fun h => Or.inr (Or.inl h)))) hbefore
      have hmiddle : Flat opened .colon _ .colon :=
        reads_spaces (fun c => step_space (Or.inr (Or.inr (Or.inr rfl)))) hafter
      have hkey : Flat opened (.string true) _ .colon := Flat.append (reads_tail htail) hmiddle
      obtain ⟨last, hlast, htext⟩ := ih opened .value (Or.inl rfl)
      have hcolon : step ⟨opened, .colon⟩ ':' = some ⟨opened, .value⟩ := rfl
      have hreads := Reads.append hfirst (.next hquote (Reads.append hkey (.next hcolon htext)))
      have hpeak (d : ℕ) : max opened.length (max opened.length (max opened.length
          (max opened.length (opened.length + d)))) = opened.length + d := by omega
      refine ⟨last, hlast, ?_⟩
      rwa [hpeak] at hreads
  | lastMember _ ih => exact ih opened mode hstart.1
  | members _ _ ih ihrest =>
      obtain ⟨hmode, hopened⟩ := hstart
      obtain ⟨others, rfl⟩ := List.head?_eq_some_iff.mp hopened
      obtain ⟨last, hlast, htext⟩ := ih _ mode hmode
      obtain ⟨last', hlast', hrest⟩ := ihrest (.object :: others) .key ⟨Or.inl rfl, rfl⟩
      exact ⟨last', hlast', reads_list htext (step_ended hlast rfl) hrest⟩

/-- A JSON text is read to its end, with as many containers open as are nested in it. -/
theorem IsJson.reads {text : List Char} {depth : ℕ} (h : IsJson text depth) :
    ∃ last : State, last.complete = true ∧ Reads .start text last depth := by
  obtain ⟨mode, hmode, hreads⟩ := reads_of_derives h [] .value (Or.inl rfl)
  rw [List.length_nil, Nat.zero_add] at hreads
  refine ⟨⟨[], mode⟩, ?_, hreads⟩
  cases mode <;> exact hmode

end Json
