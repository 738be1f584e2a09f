import MosaicArchive.Json.Grammar
import MosaicArchive.Report.Value

/-!
The guards against deeply nested JSON of `mosaic_archive/competitive_report_io.py` and
`mosaic_archive/competitive_corpus_prep.py`. Both count brackets outside strings before the
text is decoded. One lets the count go below zero, the other does not.
-/

namespace MosaicArchive

/-- The loop variables of the guards. -/
structure NestingScan where
  depth : ℤ
  inString : Bool
  escaped : Bool
  deriving DecidableEq

def NestingScan.start : NestingScan := ⟨0, false, false⟩

section Guard

variable {ε : Type} (maxJsonNesting : ℕ) (decrement : ℤ → ℤ) (tooDeep : ε)

/-- One round of the loop. -/
def nestingStep (scan : NestingScan) (character : Char) : Except ε NestingScan :=
  if scan.inString then
    if scan.escaped then .ok { scan with escaped := false }
    else if character = '\\' then .ok { scan with escaped := true }
    else if character = '"' then .ok { scan with inString := false }
    else .ok scan
  else if character = '"' then .ok { scan with inString := true }
  else if character = '[' ∨ character = '\x7b' then
    if scan.depth + 1 > maxJsonNesting then .error tooDeep
    else .ok { scan with depth := scan.depth + 1 }
  else if character = ']' ∨ character = '\x7d' then .ok { scan with depth := decrement scan.depth }
  else .ok scan

/-- The loop, on the whole text. -/
def scanNesting (text : List Char) : Except ε Unit :=
  (text.foldlM (nestingStep maxJsonNesting decrement tooDeep) .start).map fun _ => ()

end Guard

namespace Report

def maxJsonNesting : ℕ := 64

/-- `_validate_json_nesting` of the report reader -/
def validateJsonNesting (payload : List Char) : Except ReportError Unit :=
  scanNesting maxJsonNesting (fun depth => depth - 1)
    (.message "competitive report JSON is too deeply nested") payload

end Report

namespace CorpusPrep

/-- `AcquisitionPlanValidationError` -/
structure PlanError where
  message : String
  deriving DecidableEq

def maxJsonNesting : ℕ := 64

/-- `_validate_json_nesting` of the reader of acquisition plans -/
def validateJsonNesting (text : List Char) : Except PlanError Unit :=
  scanNesting maxJsonNesting (fun depth => max 0 (depth - 1))
    ⟨"JSON nesting exceeds the maximum depth of 64"⟩ text

end CorpusPrep

/-! ### The guards follow the parser -/

/-- The guard knows how many containers the parser has open, and whether it is in a string. -/
def NestingScan.Agrees (scan : NestingScan) (s : Json.State) : Prop :=
  scan.depth = s.opened.length ∧ (scan.inString, scan.escaped) = s.mode.scan

section

variable {ε : Type} {maxJsonNesting : ℕ} {decrement : ℤ → ℤ} {tooDeep : ε}

/-- Inside a string only the flags change, and they change as in the parser. -/
theorem nestingStep_inString {scan : NestingScan} (h : scan.inString = true) (character : Char) :
    nestingStep maxJsonNesting decrement tooDeep scan character =
      .ok ⟨scan.depth, (Json.scanString scan.escaped character).1,
        (Json.scanString scan.escaped character).2⟩ := by
  obtain ⟨depth, inString, escaped⟩ := scan
  obtain rfl : inString = true := h
  cases escaped with
  | true => rfl
  | false =>
      simp only [nestingStep, Json.scanString, if_true, Bool.false_eq_true, if_false]
      split_ifs <;> rfl

/-- A character that the parser can read changes the guard as it changes the parser, unless it
opens one container too many. -/
theorem nestingStep_agrees (hdecrement : ∀ d : ℤ, 1 ≤ d → decrement d = d - 1)
    {scan : NestingScan} {s t : Json.State} {c : Char} (hagrees : scan.Agrees s)
    (hstep : Json.step s c = some t) :
    (t.opened.length ≤ maxJsonNesting → ∃ scan',
      nestingStep maxJsonNesting decrement tooDeep scan c = .ok scan' ∧ scan'.Agrees t) ∧
    (s.opened.length ≤ maxJsonNesting → maxJsonNesting < t.opened.length →
      nestingStep maxJsonNesting decrement tooDeep scan c = .error tooDeep) := by
  obtain ⟨depth, inString, escaped⟩ := scan
  obtain ⟨hdepth, hflags⟩ := hagrees
  cases inString with
  | true =>
      obtain ⟨hopened, hscan⟩ := Json.step_inside hflags.symm hstep
      refine ⟨fun _ => ⟨_, nestingStep_inString rfl c, ?_, hscan.symm⟩, fun h h' => ?_⟩
      · rw [hopened]
        exact hdepth
      · rw [hopened] at h'
        omega
  | false =>
      have hoff : s.mode.scan = (false, false) := Json.Mode.scan_of_not_inString hflags.symm
      obtain rfl : escaped = false := congrArg Prod.snd (hflags.trans hoff)
      cases Json.step_outside hoff hstep with
      | quote hopened hscan =>
          refine ⟨fun _ => ⟨⟨depth, true, false⟩, rfl, ?_, hscan.symm⟩, fun h h' => ?_⟩
          · rw [hopened]
            exact hdepth
          · rw [hopened] at h'
            omega
      | opening container hc hopened hscan =>
          have hlength : t.opened.length = s.opened.length + 1 := by rw [hopened]; rfl
          have hguard : nestingStep maxJsonNesting decrement tooDeep ⟨depth, false, false⟩ c =
              if depth + 1 > maxJsonNesting then .error tooDeep
              else .ok ⟨depth + 1, false, false⟩ := by
            rcases hc with rfl | rfl <;> rfl
          have hdepth' : depth = s.opened.length := hdepth
          constructor
          · intro h
            refine ⟨⟨depth + 1, false, false⟩, ?_, ?_, hscan.symm⟩
            · rw [hguard, if_neg (by omega)]
            · show depth + 1 = t.opened.length
              omega
          · intro h h'
            rw [hguard, if_pos (by omega)]
      | closing container hc hopened hscan =>
          have hlength : s.opened.length = t.opened.length + 1 := by rw [hopened]; rfl
          have hguard : nestingStep maxJsonNesting decrement tooDeep ⟨depth, false, false⟩ c =
              .ok ⟨decrement depth, false, false⟩ := by
            rcases hc with rfl | rfl <;> rfl
          have hdepth' : depth = s.opened.length := hdepth
          refine ⟨fun _ => ⟨_, hguard, ?_, hscan.symm⟩, fun h h' => by omega⟩
          show decrement depth = t.opened.length
          rw [hdecrement depth (by omega)]
          omega
      | other hc hopened hscan =>
          have hguard : nestingStep maxJsonNesting decrement tooDeep ⟨depth, false, false⟩ c =
              .ok ⟨depth, false, false⟩ := by
            simp only [Json.isStructural, Bool.or_eq_false_iff, beq_eq_false_iff_ne, ne_eq] at hc
            simp [nestingStep, hc]
          refine ⟨fun _ => ⟨_, hguard, ?_, hscan.symm⟩, fun h h' => ?_⟩
          · rw [hopened]
            exact hdepth
          · rw [hopened] at h'
            omega

/-- On a text that the parser can read the guard stops exactly if too many containers are open at
some point. -/
theorem foldlM_nestingStep (hdecrement : ∀ d : ℤ, 1 ≤ d → decrement d = d - 1)
    {s t : Json.State} {text : List Char} {peak : ℕ} (hreads : Json.Reads s text t peak)
    {scan : NestingScan} (hagrees : scan.Agrees s) (hs : s.opened.length ≤ maxJsonNesting) :
    (peak ≤ maxJsonNesting → ∃ scan',
      text.foldlM (nestingStep maxJsonNesting decrement tooDeep) scan = .ok scan' ∧
        scan'.Agrees t) ∧
    (maxJsonNesting < peak →
      text.foldlM (nestingStep maxJsonNesting decrement tooDeep) scan = .error tooDeep) := by
  induction hreads generalizing scan with
  | done s => exact ⟨fun _ => ⟨scan, rfl, hagrees⟩, fun h => absurd hs (by omega)⟩
  | @next s t u c text peak hstep hreads ih =>
      obtain ⟨hgoes, hstops⟩ := @nestingStep_agrees ε maxJsonNesting decrement tooDeep hdecrement
        scan s t c hagrees hstep
      have hfirst := hreads.first_le
      rw [List.foldlM_cons]
      by_cases ht : t.opened.length ≤ maxJsonNesting
      · obtain ⟨scan', hscan', hagrees'⟩ := hgoes ht
        obtain ⟨hread, hstop⟩ := ih hagrees' ht
        rw [hscan']
        exact ⟨fun h => hread (le_of_max_le_right h), fun h => hstop (by omega)⟩
      · rw [hstops hs (by omega)]
        exact ⟨fun h => by omega, fun _ => rfl⟩

/-- `foldlM_nestingStep` for a whole text. -/
theorem scanNesting_eq_ok_iff (hdecrement : ∀ d : ℤ, 1 ≤ d → decrement d = d - 1)
    {t : Json.State} {text : List Char} {peak : ℕ} (hreads : Json.Reads .start text t peak) :
    scanNesting maxJsonNesting decrement tooDeep text = .ok () ↔ peak ≤ maxJsonNesting := by
  obtain ⟨hread, hstop⟩ := @foldlM_nestingStep ε maxJsonNesting decrement tooDeep hdecrement
    _ _ _ _ hreads .start ⟨rfl, rfl⟩ (Nat.zero_le _)
  rw [scanNesting]
  by_cases h : peak ≤ maxJsonNesting
  · obtain ⟨scan', hscan', -⟩ := hread h
    rw [hscan']
    exact ⟨fun _ => h, fun _ => rfl⟩
  · rw [hstop (by omega)]
    exact ⟨nofun, fun h' => absurd h' h⟩

/-- A guard that accepts a text accepts what the text starts with. -/
theorem scanNesting_ok_of_front {text front : List Char} (hfront : front <+: text)
    (h : scanNesting maxJsonNesting decrement tooDeep text = .ok ()) :
    scanNesting maxJsonNesting decrement tooDeep front = .ok () := by
  obtain ⟨rest, rfl⟩ := hfront
  rw [scanNesting, List.foldlM_append] at h
  rw [scanNesting]
  cases hscan : front.foldlM (nestingStep maxJsonNesting decrement tooDeep) .start with
  | error e =>
      rw [hscan] at h
      cases h
  | ok scan => rfl

/-- The parser never has too many containers open on a text that the guard accepts. -/
theorem opened_le_of_scanNesting (hdecrement : ∀ d : ℤ, 1 ≤ d → decrement d = d - 1)
    {text front : List Char} {s : Json.State}
    (h : scanNesting maxJsonNesting decrement tooDeep text = .ok ()) (hfront : front <+: text)
    (hrun : Json.run .start front = some s) : s.opened.length ≤ maxJsonNesting := by
  obtain ⟨peak, hreads⟩ := Json.exists_reads hrun
  exact hreads.last_le.trans
    ((scanNesting_eq_ok_iff hdecrement hreads).mp (scanNesting_ok_of_front hfront h))

end

theorem decrement_report (d : ℤ) (_ : 1 ≤ d) : (fun depth : ℤ => depth - 1) d = d - 1 := rfl

theorem decrement_corpusPrep (d : ℤ) (hd : 1 ≤ d) :
    (fun depth : ℤ => max 0 (depth - 1)) d = d - 1 :=
  max_eq_right (by omega)

/-- The guards are safe on every text and exact on JSON. On what an accepted text starts with, as
far as a parser can read it, no more arrays and objects are open than are allowed. A JSON text,
which a parser reads to its end, is accepted exactly if no more are nested in it, and so by both
guards or by none. -/
theorem nesting_guards_exact :
    (∀ (text front : List Char) (s : Json.State), front <+: text →
      Json.run .start front = some s →
      (Report.validateJsonNesting text = .ok () → s.opened.length ≤ Report.maxJsonNesting) ∧
      (CorpusPrep.validateJsonNesting text = .ok () →
        s.opened.length ≤ CorpusPrep.maxJsonNesting)) ∧
    (∀ (text : List Char) (depth : ℕ), Json.IsJson text depth →
      (∃ last, Json.run .start text = some last ∧ last.complete = true) ∧
      (Report.validateJsonNesting text = .ok () ↔ depth ≤ Report.maxJsonNesting) ∧
      (CorpusPrep.validateJsonNesting text = .ok () ↔ depth ≤ CorpusPrep.maxJsonNesting) ∧
      (Report.validateJsonNesting text = .ok () ↔ CorpusPrep.validateJsonNesting text = .ok ())) := by
  refine ⟨fun text front s hfront hrun => ⟨fun h => ?_, fun h => ?_⟩, fun text depth hjson => ?_⟩
  · exact opened_le_of_scanNesting decrement_report h hfront hrun
  · exact opened_le_of_scanNesting decrement_corpusPrep h hfront hrun
  · obtain ⟨last, hcomplete, hreads⟩ := hjson.reads
    have hreport : Report.validateJsonNesting text = .ok () ↔ depth ≤ Report.maxJsonNesting :=
      scanNesting_eq_ok_iff decrement_report hreads
    have hcorpus : CorpusPrep.validateJsonNesting text = .ok () ↔
        depth ≤ CorpusPrep.maxJsonNesting :=
      scanNesting_eq_ok_iff decrement_corpusPrep hreads
    exact ⟨⟨last, hreads.run_eq, hcomplete⟩, hreport, hcorpus, hreport.trans hcorpus.symm⟩

/-- A bracket in a string does not count. -/
theorem isJson_bracket_in_string : Json.IsJson ['[', '"', '[', '"', ']'] 1 := by
  have hstring : Json.Derives .value ['"', '[', '"'] 0 := .string (.plain rfl .close)
  have helement : Json.Derives .element ['"', '[', '"'] 0 :=
    @Json.Derives.element [] _ [] _ nofun hstring nofun
  exact @Json.Derives.element [] _ [] _ nofun (.array (.lastElement helement)) nofun

theorem nesting_guards_exact_bracket_in_string :
    (∃ last, Json.run .start ['[', '"', '[', '"', ']'] = some last ∧ last.complete = true) ∧
    (Report.validateJsonNesting ['[', '"', '[', '"', ']'] = .ok () ↔ 1 ≤ Report.maxJsonNesting) ∧
    (CorpusPrep.validateJsonNesting ['[', '"', '[', '"', ']'] = .ok () ↔
      1 ≤ CorpusPrep.maxJsonNesting) ∧
    (Report.validateJsonNesting ['[', '"', '[', '"', ']'] = .ok () ↔
      CorpusPrep.validateJsonNesting ['[', '"', '[', '"', ']'] = .ok ()) :=
  nesting_guards_exact.2 _ 1 isJson_bracket_in_string

end MosaicArchive
