import ElektronPool.Js.Quoted
import ElektronPool.Stratum.Handshake
import Mathlib.Data.List.TakeWhile

/-!
# The registry of mempool explorers

`PoolRegistryService` as far as it reads `mempools.txt`, whose lines are documented as
`"Name", "URL";`. A fetched text replaces the list in memory, and the copy on disk, where
`parseMempoolsRegistry` finds an entry in it. It reads the strings in quotes of a line and nothing
else, which makes it indifferent to the separators, and also to the markup of an error page.
-/

namespace ElektronPool.Stratum
set_option autoImplicit false
open Js

/-! ## The service -/

structure RegistryMempoolEntry where
  name : String
  url : String
  deriving DecidableEq

/-- The list in memory, and the text in the cache file. -/
structure PoolRegistry where
  mempools : List RegistryMempoolEntry
  cache : Option String
  deriving DecidableEq

/-- How an attempt to write the file ends, and what a failed one leaves in it. -/
inductive Write where
  | done
  | failed (left : Option String)
  deriving DecidableEq

/-- The entry of a line, `none` where the loop goes on to the next one. -/
def readLine (rawLine : List Char) : Option RegistryMempoolEntry :=
  let line := trim rawLine
  if line.length = 0 then none
  else
    match quotedStrings line with
    | [name, url] =>
      if (trim name).length = 0 ∨ (trim url).length = 0 then none
      else some ⟨String.ofList (trim name), String.ofList (trim url)⟩
    | _ => none

/-- `text.split('\n')`. -/
def rawLines (text : String) : List (List Char) := text.toList.splitOn '\n'

def parseMempoolsRegistry (text : Option String) : List RegistryMempoolEntry :=
  (rawLines (text.getD "")).filterMap readLine

namespace PoolRegistry

def loadLocalCache (r : PoolRegistry) : PoolRegistry :=
  match r.cache with
  | some text => { r with mempools := parseMempoolsRegistry (some text) }
  | none => r

def saveLocalCache (text : Option String) (write : Write) (r : PoolRegistry) : PoolRegistry :=
  match write with
  | .done => { r with cache := text }
  | .failed left => { r with cache := left }

/-- The request ends in an exception or with the body of the response. -/
def refreshRegistry (response : Except String (Option String)) (write : Write) (r : PoolRegistry) :
    PoolRegistry :=
  match response with
  | .ok data =>
    let entries := parseMempoolsRegistry data
    if entries.length > 0 then saveLocalCache data write { r with mempools := entries } else r
  | .error _ => r

end PoolRegistry

/-! ## What a line holds -/

theorem quotedStrings_trim (cs : List Char) : quotedStrings (trim cs) = quotedStrings cs := by
  have unquoted : ∀ ds : List Char, '"' ∉ ds.takeWhile isWhiteSpace := by
    intro ds quote
    have white := List.mem_takeWhile_imp quote
    exact absurd white (by decide)
  have front := quotedStrings_append_left (unquoted cs) (cs.dropWhile isWhiteSpace)
  rw [List.takeWhile_append_dropWhile] at front
  have back := quotedStrings_append_right
    (mt List.mem_reverse.1 (unquoted (cs.dropWhile isWhiteSpace).reverse)) (trim cs)
  rw [trim, ← List.reverse_append, List.takeWhile_append_dropWhile, List.reverse_reverse] at back
  exact back.symm.trans front.symm

/-- The line quotes exactly two strings, and neither is blank. -/
def QuotesTwo (line : List Char) : Prop :=
  ∃ name url, quotedStrings line = [name, url] ∧ trim name ≠ [] ∧ trim url ≠ []

/-- **The entry of a line** is that of the two strings it quotes. -/
theorem readLine_eq_some_iff {line : List Char} {entry : RegistryMempoolEntry} :
    readLine line = some entry ↔ ∃ name url, quotedStrings line = [name, url] ∧ trim name ≠ [] ∧
      trim url ≠ [] ∧ entry = ⟨String.ofList (trim name), String.ofList (trim url)⟩ := by
  simp only [readLine, List.length_eq_zero_iff]
  constructor
  · intro read
    split at read
    · cases read
    · split at read
      · rename_i name url fields
        split at read
        · cases read
        · rename_i filled
          rw [not_or] at filled
          rw [quotedStrings_trim] at fields
          exact ⟨name, url, fields, filled.1, filled.2, (Option.some.inj read).symm⟩
      · cases read
  · rintro ⟨name, url, fields, filled, filled', rfl⟩
    have line_ne : trim line ≠ [] := by
      intro blank
      rw [← quotedStrings_trim, blank] at fields
      cases fields
    rw [if_neg line_ne, quotedStrings_trim, fields]
    exact if_neg (not_or.2 ⟨filled, filled'⟩)

theorem parseMempoolsRegistry_eq_nil_iff {text : String} :
    parseMempoolsRegistry (some text) = [] ↔ ∀ line ∈ rawLines text, ¬QuotesTwo line := by
  rw [parseMempoolsRegistry, List.filterMap_eq_nil_iff]
  refine forall₂_congr fun line _ => ?_
  rw [Option.eq_none_iff_forall_ne_some]
  constructor
  · rintro none ⟨name, url, fields, filled, filled'⟩
    exact none _ (readLine_eq_some_iff.2 ⟨name, url, fields, filled, filled', rfl⟩)
  · rintro single entry read
    obtain ⟨name, url, fields, filled, filled', -⟩ := readLine_eq_some_iff.1 read
    exact single ⟨name, url, fields, filled, filled'⟩

/-! ## A refresh -/

namespace PoolRegistry

theorem refreshRegistry_mempools (data : Option String) (write : Write) (r : PoolRegistry) :
    (r.refreshRegistry (.ok data) write).mempools =
      if parseMempoolsRegistry data = [] then r.mempools else parseMempoolsRegistry data := by
  by_cases none : parseMempoolsRegistry data = []
  · simp [refreshRegistry, none]
  · rw [if_neg none, refreshRegistry, if_pos (List.length_pos_iff.2 none)]
    cases write <;> rfl

theorem refreshRegistry_of_nil {data : Option String} (none : parseMempoolsRegistry data = [])
    (write : Write) (r : PoolRegistry) : r.refreshRegistry (.ok data) write = r := by
  simp [refreshRegistry, none]

/-- What is on disk is what is in memory: a start of the pool loads the same list. -/
def Synced (r : PoolRegistry) : Prop := loadLocalCache ⟨[], r.cache⟩ = r

theorem synced_loadLocalCache (cache : Option String) : Synced (loadLocalCache ⟨[], cache⟩) := by
  cases cache <;> rfl

theorem Synced.refreshRegistry {r : PoolRegistry} (synced : r.Synced)
    (response : Except String (Option String)) : Synced (r.refreshRegistry response .done) := by
  match response with
  | .error _ => exact synced
  | .ok none => exact synced
  | .ok (some text) =>
    by_cases none : parseMempoolsRegistry (some text) = []
    · rwa [refreshRegistry_of_nil none]
    · rw [PoolRegistry.refreshRegistry, if_pos (List.length_pos_iff.2 none)]
      rfl

/-- **Restarts**: while the writes succeed, whatever is fetched, a restart loses nothing. -/
theorem synced_of_refreshes (cache : Option String) (responses : List (Except String (Option String))) :
    Synced (responses.foldl (fun r response => r.refreshRegistry response .done)
      (loadLocalCache ⟨[], cache⟩)) := by
  generalize start : loadLocalCache ⟨[], cache⟩ = r
  have synced : r.Synced := start ▸ synced_loadLocalCache cache
  clear start
  induction responses generalizing r with
  | nil => exact synced
  | cons response responses ih => exact ih _ (synced.refreshRegistry response)

end PoolRegistry

/-! ## The documented lines -/

/-- A reading of the documented line: what may stand between its two strings and behind them. -/
structure Separators where
  between : List Char → Prop
  after : List Char → Prop
  between_unquoted {cs : List Char} : between cs → '"' ∉ cs
  after_unquoted {cs : List Char} : after cs → '"' ∉ cs

namespace Separators

theorem unquoted_of_filter {c : Char} {cs : List Char} (other : c ≠ '"') (only : cs.filter (!isWhiteSpace ·) = [c]) :
    '"' ∉ cs := by
  intro quote
  have kept : '"' ∈ cs.filter (!isWhiteSpace ·) := List.mem_filter.2 ⟨quote, by decide⟩
  rw [only, List.mem_singleton] at kept
  exact other kept.symm

/-- The guideline's comma and semicolon, with white space around them. -/
def guideline : Separators where
  between cs := cs.filter (!isWhiteSpace ·) = [',']
  after cs := cs.filter (!isWhiteSpace ·) = [';']
  between_unquoted := unquoted_of_filter (by decide)
  after_unquoted := unquoted_of_filter (by decide)

/-- What the comment on the parser allows as well: "comma, semicolon, or nothing". -/
def agnostic : Separators where
  between cs := ∀ c ∈ cs, c = ',' ∨ c = ';' ∨ isWhiteSpace c = true
  after cs := ∀ c ∈ cs, c = ',' ∨ c = ';' ∨ isWhiteSpace c = true
  between_unquoted := fun allowed quote => absurd (allowed _ quote) (by decide)
  after_unquoted := fun allowed quote => absurd (allowed _ quote) (by decide)

variable (separators : Separators)

/-- The line is `"name", "url";` in this reading. -/
def Line (line name url : List Char) : Prop :=
  ∃ before between after, (∀ c ∈ before, isWhiteSpace c = true) ∧ QuotedBody name ∧
    separators.between between ∧ QuotedBody url ∧ separators.after after ∧
    line = before ++ '"' :: (name ++ '"' :: (between ++ '"' :: (url ++ '"' :: after)))

/-- The text consists of such lines, those that are blank apart, with these names and URLs. None
is blank or contains a quote or a backslash. -/
def Registry (text : String) (fields : List (List Char × List Char)) : Prop :=
  List.Forall₂ (fun line field => separators.Line line field.1 field.2)
      ((rawLines text).filter (trim · ≠ [])) fields ∧
    ∀ field ∈ fields, (trim field.1 ≠ [] ∧ '"' ∉ field.1 ∧ '\\' ∉ field.1) ∧
      trim field.2 ≠ [] ∧ '"' ∉ field.2 ∧ '\\' ∉ field.2

/-- A text with no documented line changes nothing, one of such lines becomes the list. -/
def ReadsAsDocumented (text : String) : Prop :=
  ((∀ line ∈ rawLines text, ∀ name url, ¬separators.Line line name url) →
    ∀ (write : Write) (r : PoolRegistry), r.refreshRegistry (.ok (some text)) write = r) ∧
  ∀ fields, fields ≠ [] → separators.Registry text fields →
    ∀ (write : Write) (r : PoolRegistry), (r.refreshRegistry (.ok (some text)) write).mempools =
      fields.map fun field => ⟨String.ofList (trim field.1), String.ofList (trim field.2)⟩

variable {separators}

theorem Line.quotedStrings_eq {line name url : List Char} (is : separators.Line line name url) :
    quotedStrings line = [name, url] := by
  obtain ⟨before, between, after, white, isName, isBetween, isUrl, isAfter, rfl⟩ := is
  have unquoted : '"' ∉ before := fun quote => absurd (white _ quote) (by decide)
  have behind := quotedStrings_append_left (separators.after_unquoted isAfter) []
  rw [List.append_nil, quotedStrings_nil] at behind
  rw [quotedStrings_append_left unquoted, quotedStrings_quoted isName,
    quotedStrings_append_left (separators.between_unquoted isBetween), quotedStrings_quoted isUrl, behind]

/-- The first character of a documented line is the quote. -/
theorem Line.head?_eq {line name url : List Char} (is : separators.Line line name url) :
    (line.dropWhile isWhiteSpace).head? = some '"' := by
  obtain ⟨before, between, after, white, -, -, -, -, rfl⟩ := is
  rw [List.dropWhile_append_of_pos white, List.dropWhile_cons_of_neg (by decide), List.head?_cons]

/-- Blank lines apart, the entries of such a text are its fields. -/
theorem Registry.parse_eq {text : String} {fields : List (List Char × List Char)}
    (is : separators.Registry text fields) : parseMempoolsRegistry (some text) =
      fields.map fun field => ⟨String.ofList (trim field.1), String.ofList (trim field.2)⟩ := by
  obtain ⟨each, plain⟩ := is
  have skipped : parseMempoolsRegistry (some text) =
      ((rawLines text).filter (trim · ≠ [])).filterMap readLine := by
    rw [List.filterMap_filter]
    refine List.filterMap_congr fun line _ => ?_
    by_cases blank : trim line = []
    · simp [readLine, blank]
    · simp [blank]
  rw [skipped]
  generalize (rawLines text).filter (trim · ≠ []) = lines at each
  clear skipped
  induction each with
  | nil => rfl
  | @cons line field lines fields is _ ih =>
    obtain ⟨⟨name, -⟩, url, -⟩ := plain field List.mem_cons_self
    have entry := readLine_eq_some_iff.2 ⟨_, _, is.quotedStrings_eq, name, url, rfl⟩
    rw [List.filterMap_cons_some entry, List.map_cons,
      ih fun field member => plain field (List.mem_cons_of_mem _ member)]

example : parseMempoolsRegistry (some "\"A\", \"https://a\";\r\n\n \"B \",\"https://b\" ;") =
    [⟨"A", "https://a"⟩, ⟨"B", "https://b"⟩] := by decide

/-- **Registry texts**: with any separators, the text is read as documented exactly if it has a
documented line or none that quotes two strings, neither of them blank. -/
theorem readsAsDocumented_iff (separators : Separators) (text : String) :
    separators.ReadsAsDocumented text ↔
      (∃ line ∈ rawLines text, ∃ name url, separators.Line line name url) ∨
        ∀ line ∈ rawLines text, ¬QuotesTwo line := by
  constructor
  · rintro ⟨kept, -⟩
    refine or_iff_not_imp_left.2 fun undocumented => parseMempoolsRegistry_eq_nil_iff.1 ?_
    have same := kept (fun line member name url is => undocumented ⟨line, member, name, url, is⟩)
      .done ⟨[], none⟩
    by_contra some
    have list := PoolRegistry.refreshRegistry_mempools (Option.some text) .done ⟨[], none⟩
    rw [same, if_neg some] at list
    exact some list.symm
  · intro condition
    constructor
    · intro undocumented write r
      rcases condition with ⟨line, member, name, url, is⟩ | none
      · exact absurd is (undocumented line member name url)
      · exact PoolRegistry.refreshRegistry_of_nil (parseMempoolsRegistry_eq_nil_iff.2 none) write r
    · intro fields nonempty is write r
      have list := is.parse_eq
      have some : parseMempoolsRegistry (Option.some text) ≠ [] := by
        rw [list]
        exact mt List.map_eq_nil_iff.1 nonempty
      rw [PoolRegistry.refreshRegistry_mempools, if_neg some, list]

/-- An error page, on which a link has two attributes. -/
def outagePage : String := "<html>\n<a href=\"/status\" class=\"button\">Status</a>\n</html>\n"

theorem not_readsAsDocumented_outagePage :
    ¬guideline.ReadsAsDocumented outagePage ∧ ¬agnostic.ReadsAsDocumented outagePage := by
  have undocumented : ∀ line ∈ rawLines outagePage, (line.dropWhile isWhiteSpace).head? ≠ some '"' := by
    decide
  have replaced : PoolRegistry.refreshRegistry (.ok (some outagePage)) .done ⟨[⟨"A", "https://a"⟩], none⟩ ≠
      ⟨[⟨"A", "https://a"⟩], none⟩ := by
    decide
  exact ⟨fun read => replaced (read.1 (fun line member _ _ is => undocumented line member is.head?_eq) _ _),
    fun read => replaced (read.1 (fun line member _ _ is => undocumented line member is.head?_eq) _ _)⟩

end Separators

end ElektronPool.Stratum
