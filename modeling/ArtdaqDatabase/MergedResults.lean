import ArtdaqDatabase.JsonWriter
import ArtdaqDatabase.Multitasker

/-!
# The summary of the results

`getMergedResults` inserts the messages into a JSON text as they are, and removes
the comma behind the last entry by writing over it.  Without an entry the bracket
that opens the list is written over instead.
-/

namespace ArtdaqDatabase

open OrderedTable Scanner

/-! ## The text -/

/-- The lines of a result, with the comma behind them. -/
def resultText (result : TaskResult) : String :=
  "\n\x7b\"status\":" ++ (if result.1 then "1" else "0") ++ ",\"message\":\"" ++ result.2 ++ "\"\x7d,"

/-- `int errorCount`. -/
def errorCount (results : List TaskResult) : ℤ :=
  Int.bmod (results.countP fun result => !result.1) (2 ^ 32)

/-- `getMergedResults`, once it has the results. -/
def mergeResults (results : List TaskResult) : TaskResult :=
  let resultSummary := "\x7b\n\"results\":[" ++ String.join (results.map resultText)
  -- `seekp(-1)`: what follows overwrites the last character
  (errorCount results = 0,
    String.ofList resultSummary.toList.dropLast ++ "\n],\n\"total\":" ++ toString results.length ++
      ",\"errors\":" ++ toString (errorCount results) ++ "\n\x7d")

def Multitasker.getMergedResults {n : ℕ} (s : Multitasker n) :
    Except Failure (TaskResult × Multitasker n) := do
  let (results, rest) ← s.getResults
  return (mergeResults (results.map Prod.snd), rest)

/-! ## What it should say -/

def failureCount (results : List TaskResult) : ℕ :=
  results.countP fun result => !result.1

/-- The entry of a result. -/
def Records (entry : Value) (result : TaskResult) : Prop :=
  ∃ members, entry = .object members ∧
    lookup "status" members = some (.integer (if result.1 then 1 else 0)) ∧
    lookup "message" members = some (.string result.2)

/-- Nothing is lost in the summary. -/
structure Reports (summary : Object) (results : List TaskResult) : Prop where
  entries : ∃ entries, lookup "results" summary = some (.array entries) ∧
    List.Forall₂ Records entries results
  total : lookup "total" summary = some (.integer results.length)
  errors : lookup "errors" summary = some (.integer (failureCount results))

/-- What the caller of `getMergedResults` relies on. -/
structure Merges
    (decimalText : List Char → String) (merged : TaskResult) (results : List TaskResult) :
    Prop where
  success : merged.1 = true ↔ ∀ result ∈ results, result.1 = true
  summary : ∃ summary, JsonReader.read decimalText merged.2 = .ok (some summary) ∧
    Reports summary results

/-- Results whose summary is right: there are some, each message is the raw text of
a JSON string, and the counts fit their types. -/
structure Mergeable (results : List TaskResult) : Prop where
  nonempty : results ≠ []
  message : ∀ result ∈ results, isRawText result.2.toList = true
  total : results.length < 2 ^ 63
  errors : failureCount results < 2 ^ 31

/-! ## Its layout -/

/-- A member without blanks but the ones in front of it. -/
def namedText (blanks : List Char) (key : String) (word : List Char) : List Char :=
  blanks ++ ('"' :: key.toList ++ ['"']) ++ ([] ++ [':'] ++ word)

/-- The status and the message of a result, without the comma. -/
def entryText (result : TaskResult) : List Char :=
  ['\n'] ++ (['\x7b'] ++
    (separated
      [namedText [] "status" (writeValue (.integer (if result.1 then 1 else 0))).toList,
        namedText [] "message" (writeValue (.string result.2)).toList] ++ ([] ++ ['\x7d'])))

def entryOf (result : TaskResult) : Value :=
  .object [("status", .integer (if result.1 then 1 else 0)), ("message", .string result.2)]

theorem toList_resultText (result : TaskResult) :
    (resultText result).toList = entryText result ++ [','] := by
  have hzero : (Int.repr 0).toList = ['0'] := rfl
  have hone : (Int.repr 1).toList = ['1'] := rfl
  obtain ⟨status, message⟩ := result
  cases status with
  | false => simp [resultText, entryText, namedText, separated, writeValue, hzero]
  | true => simp [resultText, entryText, namedText, separated, writeValue, hone]

theorem flatten_commas (word : List Char) (words : List (List Char)) :
    ((word :: words).map (· ++ [','])).flatten = separated (word :: words) ++ [','] := by
  induction words generalizing word with
  | nil => simp [separated]
  | cons next words ih =>
      rw [List.map_cons, List.flatten_cons, ih next]
      simp [separated]

/-- The text of a summary that has entries. -/
def summaryText (results : List TaskResult) : List Char :=
  ['\x7b'] ++ (separated
    [namedText ['\n'] "results"
        (['['] ++ (separated (results.map entryText) ++ (['\n'] ++ [']']))),
      namedText ['\n'] "total" (writeValue (.integer results.length)).toList,
      namedText [] "errors" (writeValue (.integer (errorCount results))).toList] ++
    (['\n'] ++ ['\x7d']))

theorem toList_summary (entries : List Char) (total errors : String) :
    (String.ofList ("\x7b\n\"results\":[".toList ++ entries) ++ "\n],\n\"total\":" ++ total ++
        ",\"errors\":" ++ errors ++ "\n\x7d").toList =
      ['\x7b'] ++ (separated
        [namedText ['\n'] "results" (['['] ++ (entries ++ (['\n'] ++ [']']))),
          namedText ['\n'] "total" total.toList,
          namedText [] "errors" errors.toList] ++
        (['\n'] ++ ['\x7d'])) := by
  simp [separated, namedText]

theorem toList_mergeResults {results : List TaskResult} (hresults : results ≠ []) :
    (mergeResults results).2.toList = summaryText results := by
  obtain ⟨result, rest, rfl⟩ := List.exists_cons_of_ne_nil hresults
  have hjoin : (String.join ((result :: rest).map resultText)).toList =
      separated ((result :: rest).map entryText) ++ [','] := by
    have htexts : ((result :: rest).map resultText).map String.toList =
        ((result :: rest).map entryText).map (· ++ [',']) := by
      rw [List.map_map, List.map_map]
      exact List.map_congr_left fun r _ => toList_resultText r
    rw [String.toList_join, List.flatMap_def, htexts]
    exact flatten_commas (entryText result) (rest.map entryText)
  have hdrop : ("\x7b\n\"results\":[" ++
        String.join ((result :: rest).map resultText)).toList.dropLast =
      "\x7b\n\"results\":[".toList ++ separated ((result :: rest).map entryText) := by
    rw [String.toList_append, hjoin, ← List.append_assoc, List.dropLast_concat]
  have hlength : toString (result :: rest).length =
      writeValue (.integer ((result :: rest).length : ℤ)) := by
    rw [writeValue]
    rfl
  have herrors : toString (errorCount (result :: rest)) =
      writeValue (.integer (errorCount (result :: rest))) := by
    rw [writeValue]
  unfold mergeResults summaryText
  simp only
  rw [hdrop, hlength, herrors]
  exact toList_summary _ _ _

/-! ## Taking it -/

section

variable (decimalText : List Char → String)

/-- A member is taken if its value is an integer or a raw string. -/
theorem takes_namedScalar
    {depth : ℕ} {blanks : List Char} {key : String} {v : Value}
    (hblanks : ∀ c ∈ blanks, isSpace c = true) (hkey : isRawText key.toList = true)
    (hv : v.Readable) (hobject : ∀ members, v ≠ .object members)
    (harray : ∀ values, v ≠ .array values) :
    Takes (dataRule (valueRule decimalText (depth + 1)))
      (namedText blanks key (writeValue v).toList) (key, v) Closes := by
  have htakes := takes_scalar decimalText hv.printable hobject harray depth
  rw [hv.reread (v.rereadAs_reread decimalText)] at htakes
  exact takes_named decimalText hblanks hkey (List.forall_mem_nil _) htakes

theorem takes_entry (depth : ℕ) {result : TaskResult} (hraw : isRawText result.2.toList = true) :
    Takes (valueRule decimalText (depth + 2)) (entryText result) (entryOf result) Closes := by
  have hline : ∀ c ∈ ['\n'], isSpace c = true := List.all_eq_true.1 rfl
  have hnone : ∀ c ∈ [], isSpace c = true := List.forall_mem_nil _
  have hrange : InRange (if result.1 then 1 else 0) := by
    split <;> decide
  have hstatus := @takes_namedScalar decimalText depth _ _ (.integer _) hnone
    (show isRawText "status".toList = true by decide) hrange (by simp) (by simp)
  have hmessage := @takes_namedScalar decimalText depth _ _ (.string _) hnone
    (show isRawText "message".toList = true by decide) hraw (by simp) (by simp)
  have hshrinks := (sound_dataRule (sound_valueRule decimalText (depth + 1))).shrinks
  have hobject := takes_closed (l := '\x7b') hstatus
    (List.Forall₂.cons hmessage List.Forall₂.nil) hnone hshrinks (by decide)
    (show '\x7d' ∈ ['\x7d', ']'] by decide) Closes
  exact (skips_valueRule decimalText (depth + 2)).takes
    ((Takes.map hobject Value.object).orElse _) hline

theorem takes_entries
    (depth : ℕ) {results : List TaskResult}
    (hraw : ∀ result ∈ results, isRawText result.2.toList = true) :
    List.Forall₂ (fun word v => Takes (valueRule decimalText (depth + 2)) word v Closes)
      (results.map entryText) (results.map entryOf) := by
  rw [List.forall₂_map_left_iff, List.forall₂_map_right_iff, List.forall₂_same]
  exact fun result hresult => takes_entry decimalText depth (hraw result hresult)

/-- The tree that the summary is read as. -/
def summaryOf (results : List TaskResult) : Object :=
  [("results", .array (results.map entryOf)), ("total", .integer results.length),
    ("errors", .integer (errorCount results))]

theorem takes_summary
    (depth : ℕ) {results : List TaskResult} (hresults : results ≠ [])
    (hraw : ∀ result ∈ results, isRawText result.2.toList = true)
    (htotal : InRange results.length) (herrors : InRange (errorCount results)) :
    Takes (objectRule (valueRule decimalText (depth + 3))) (summaryText results)
      (summaryOf results) fun _ => True := by
  have hline : ∀ c ∈ ['\n'], isSpace c = true := List.all_eq_true.1 rfl
  have hnone : ∀ c ∈ [], isSpace c = true := List.forall_mem_nil _
  have harray : Takes (valueRule decimalText (depth + 3))
      (['['] ++ (separated (results.map entryText) ++ (['\n'] ++ [']'])))
      (.array (results.map entryOf)) Closes := by
    have hentries := takes_entries decimalText depth hraw
    obtain ⟨result, rest, rfl⟩ := List.exists_cons_of_ne_nil hresults
    cases hentries with
    | cons hentry hentries =>
        have h := takes_closed (l := '[') hentry hentries hline
          (sound_valueRule decimalText (depth + 2)).shrinks (by decide)
          (show ']' ∈ ['\x7d', ']'] by decide) Closes
        refine ((Takes.map h Value.array).orElse _).otherwise ?_
        intro more _
        have hobject : Refuses (fun d => d ≠ '\x7b')
            (objectRule (valueRule decimalText (depth + 2))) := refuses_lit '\x7b' _
        exact (hobject.map Value.object).head (c := '[') (by decide) (by decide) _
  have hresult := takes_named decimalText hline (show isRawText "results".toList = true by decide)
    hnone harray
  have htotals := @takes_namedScalar decimalText (depth + 2) _ _ (.integer _) hline
    (show isRawText "total".toList = true by decide) htotal (by simp) (by simp)
  have herror := @takes_namedScalar decimalText (depth + 2) _ _ (.integer _) hnone
    (show isRawText "errors".toList = true by decide) herrors (by simp) (by simp)
  exact takes_closed (l := '\x7b') hresult
    (List.Forall₂.cons htotals (List.Forall₂.cons herror List.Forall₂.nil)) hline
    (sound_dataRule (sound_valueRule decimalText (depth + 3))).shrinks (by decide)
    (show '\x7d' ∈ ['\x7d', ']'] by decide) fun _ => True

end

/-! ## When it is right -/

theorem read_eq_ok
    (decimalText : List Char → String) {text : String} {summary : Object} {rest : List Char} (htext : text ≠ "")
    (h : objectRule (valueRule decimalText text.length) text.toList = some (summary, rest)) :
    JsonReader.read decimalText text = .ok (some summary) := by
  unfold JsonReader.read
  rw [h]
  simp [confirm, htext, bind, Except.bind, pure, Except.pure]

theorem reports_summaryOf
    {results : List TaskResult} (herrors : errorCount results = failureCount results) :
    Reports (summaryOf results) results where
  entries := by
    refine ⟨results.map entryOf, rfl, ?_⟩
    rw [List.forall₂_map_left_iff, List.forall₂_same]
    exact fun result _ => ⟨_, rfl, rfl, rfl⟩
  total := rfl
  errors := by
    rw [← herrors]
    rfl

/-- The count of the failures is right while it fits an `int`. -/
theorem errorCount_eq_iff {results : List TaskResult} :
    errorCount results = failureCount results ↔ failureCount results < 2 ^ 31 := by
  have hcount : errorCount results = Int.bmod (failureCount results) (2 ^ 32) := rfl
  rw [hcount, Int.bmod_def]
  split <;> omega

theorem inRange_errorCount (results : List TaskResult) : InRange (errorCount results) := by
  have hcount : errorCount results = Int.bmod (failureCount results) (2 ^ 32) := rfl
  rw [hcount, Int.bmod_def, InRange]
  split <;> omega

theorem failureCount_eq_zero {results : List TaskResult} :
    failureCount results = 0 ↔ ∀ result ∈ results, result.1 = true := by
  simp [failureCount, List.countP_eq_zero]

theorem success_iff {results : List TaskResult} (herrors : failureCount results < 2 ^ 31) :
    (mergeResults results).1 = true ↔ ∀ result ∈ results, result.1 = true := by
  have hcount := errorCount_eq_iff.2 herrors
  rw [← failureCount_eq_zero]
  unfold mergeResults
  simp only [decide_eq_true_eq]
  omega

section

variable (decimalText : List Char → String)

theorem read_mergeResults
    {results : List TaskResult} (hresults : results ≠ [])
    (hraw : ∀ result ∈ results, isRawText result.2.toList = true)
    (htotal : results.length < 2 ^ 63) :
    JsonReader.read decimalText (mergeResults results).2 = .ok (some (summaryOf results)) := by
  have htext := toList_mergeResults hresults
  have hlength : 3 ≤ (mergeResults results).2.length := by
    rw [← String.length_toList, htext, summaryText]
    simp only [List.length_append, List.length_singleton]
    omega
  have hne : (mergeResults results).2 ≠ "" := by
    intro hempty
    rw [hempty] at hlength
    exact absurd hlength (by decide)
  obtain ⟨depth, hdepth⟩ : ∃ depth, (mergeResults results).2.length = depth + 3 :=
    ⟨(mergeResults results).2.length - 3, by omega⟩
  have hrange : InRange results.length := by
    rw [InRange]
    omega
  have htakes := takes_summary decimalText depth hresults hraw hrange
    (inRange_errorCount results) [] trivial
  rw [List.append_nil, ← htext, ← hdepth] at htakes
  exact read_eq_ok decimalText hne htakes

/-- Without results there is no list in the text. -/
theorem read_mergeResults_nil : JsonReader.read decimalText (mergeResults []).2 = .ok none := by
  have htext : ∃ rest, (mergeResults []).2.toList =
      '\x7b' :: (['\n'] ++ ('"' :: "results".toList ++ ['"']) ++ (':' :: '\n' :: ']' :: rest)) :=
    ⟨_, rfl⟩
  obtain ⟨rest, htext⟩ := htext
  have hline : ∀ c ∈ ['\n'], isSpace c = true := List.all_eq_true.1 rfl
  have hkey := takes_string (show isRawText "results".toList = true by decide) hline
    (fun _ => True) (':' :: '\n' :: ']' :: rest) trivial
  have hvalue : ∀ depth, valueRule decimalText depth ('\n' :: ']' :: rest) = none := fun depth =>
    refuses_valueRule decimalText depth _ ']' rfl
      ((next_blanks hline _ (']' :: rest)).2 ((next_cons (by decide) _ _).2 List.mem_cons_self))
  have hmember : ∀ depth, dataRule (valueRule decimalText depth)
      (['\n'] ++ ('"' :: "results".toList ++ ['"']) ++ (':' :: '\n' :: ']' :: rest)) = none := by
    intro depth
    unfold dataRule
    rw [bind_taken hkey, bind_taken (lit_head (by decide) _)]
    exact bind_failed (hvalue depth) _
  have hclose : lit '\x7d'
      (['\n'] ++ ('"' :: "results".toList ++ ['"']) ++ (':' :: '\n' :: ']' :: rest)) = none := by
    have hnext : Next ['"']
        (['\n'] ++ ('"' :: "results".toList ++ ['"']) ++ (':' :: '\n' :: ']' :: rest)) := by
      rw [List.append_assoc]
      exact (next_blanks hline _ _).2 ((next_cons (by decide) _ _).2 List.mem_cons_self)
    exact lit_fails hnext (by decide)
  have hobject : ∀ depth, objectRule (valueRule decimalText depth) (mergeResults []).2.toList =
      none := by
    intro depth
    rw [htext]
    unfold objectRule
    have hlist : orDefault (sepBy1 (dataRule (valueRule decimalText depth)) (lit ',')) []
        (['\n'] ++ ('"' :: "results".toList ++ ['"']) ++ (':' :: '\n' :: ']' :: rest)) =
          some ([], ['\n'] ++ ('"' :: "results".toList ++ ['"']) ++ (':' :: '\n' :: ']' :: rest)) :=
      orElse_failed (bind_failed (hmember depth) _) _
    rw [bind_taken (lit_head (by decide) _), bind_taken hlist]
    exact bind_failed hclose _
  unfold JsonReader.read
  rw [hobject]
  have hne : (mergeResults []).2 ≠ "" := by
    intro hempty
    rw [hempty] at htext
    cases htext
  simp [confirm, hne, bind, Except.bind, pure, Except.pure]

theorem reads_summaryOf
    {results : List TaskResult} (hresults : Mergeable results) :
    Merges decimalText (mergeResults results) results where
  success := success_iff hresults.errors
  summary := ⟨summaryOf results,
    read_mergeResults decimalText hresults.nonempty hresults.message hresults.total,
    reports_summaryOf (errorCount_eq_iff.2 hresults.errors)⟩

/-- Every string of a tree that was read is raw text. -/
theorem isRawText_of_records
    {entries : List Value} {results : List TaskResult} (hentries : valuesPrintable entries)
    (h : List.Forall₂ Records entries results) :
    ∀ result ∈ results, isRawText result.2.toList = true := by
  induction h with
  | nil => exact List.forall_mem_nil _
  | cons hrecord hrest ih =>
      obtain ⟨members, rfl, -, hmessage⟩ := hrecord
      have hmembers := membersPrintable_iff.1 hentries.1 _ (mem_of_lookup hmessage)
      exact List.forall_mem_cons.2 ⟨hmembers.2, ih hentries.2⟩

theorem mergeable_of_merges
    (hdecimal : ∀ digits, ReadsNumber (decimalText digits).toList) {results : List TaskResult}
    (h : Merges decimalText (mergeResults results) results) : Mergeable results := by
  obtain ⟨summary, hread, hreports⟩ := h.summary
  have hprintable := membersPrintable_iff.1 (read_printable decimalText hdecimal hread)
  obtain ⟨entries, hentries, hrecords⟩ := hreports.entries
  have hresults : results ≠ [] := by
    rintro rfl
    rw [read_mergeResults_nil] at hread
    cases hread
  have hraw := isRawText_of_records (hprintable _ (mem_of_lookup hentries)).2 hrecords
  have htotal : InRange results.length := (hprintable _ (mem_of_lookup hreports.total)).2
  have hlength : results.length < 2 ^ 63 := by
    rw [InRange] at htotal
    omega
  have herrors : errorCount results = failureCount results := by
    rw [read_mergeResults decimalText hresults hraw hlength] at hread
    cases hread
    have hlookup : lookup "errors" (summaryOf results) =
        some (.integer (errorCount results)) := rfl
    rw [hreports.errors] at hlookup
    exact (Value.integer.inj (Option.some.inj hlookup)).symm
  exact ⟨hresults, hraw, hlength, errorCount_eq_iff.1 herrors⟩

end

/-- The calls and steps that bring one task to its result. -/
def oneTask (outcome : Outcome) : List (Multitasker.Action 1) :=
  [.addTask none, .work 0 outcome, .work 0 outcome, .work 0 outcome]

end ArtdaqDatabase
