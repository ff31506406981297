import Crosswalk.Document
import Crosswalk.Entity
import Crosswalk.Reading.Rule

/-!
# Mapping records

A mapping reads every enabled rule of a profile, in order, and writes what it
reads into a document. For holdings one rule is held back: the first enabled
rule that is about the grouping field. What it reads in the end decides how many
documents there are: one for each distinct value, the value written into it, or
a single one without it if there are no values.
-/

namespace Crosswalk

/-- The documents that a record was mapped to, and the grouping values that split them. -/
structure Mapped where
  documents : List Json
  groupingValues : List String
  deriving Inhabited

namespace Mapping

/-! ### Writing rules -/

/-- Writes what a rule has read. The rule's policy applies to arrays only, and a value with nothing
in it is not written. -/
def writeValue (head : RuleHead) (value : Value) (document : Json) : Except Error Json :=
  if value.isMissing then .ok document
  else
    let written :=
      Document.write head.path value (if value.isArray then head.policy else none) document
    match written.failure? with
    | some e => .error e
    | none => .ok written.document

def applyRule (setting : Setting) (record : Marc.Record) (document : Json) (rule : Rule) :
    Except Error Json :=
  if rule.head.enabled then do
    let value ← Reading.read setting rule record
    writeValue rule.head value document
  else .ok document

def applyRules (setting : Setting) (record : Marc.Record) (rules : List Rule) (document : Json) :
    Except Error Json :=
  rules.foldlM (applyRule setting record) document

/-! ### Grouping -/

/-- Whether the rule, or a field rule in one of its groups, has the logical name. -/
def isAbout (field : String) (rule : Rule) : Bool :=
  rule.head.fieldName = field
    || rule.groups.any fun group => group.fields.any fun nested => nested.head.fieldName = field

def cutAtFirst? {α : Type} (test : α → Bool) : List α → Option (List α × α × List α)
  | [] => none
  | a :: rest =>
    if test a then some ([], a, rest)
    else (cutAtFirst? test rest).map fun (before, found, after) => (a :: before, found, after)

def heldBack? (field : String) (rules : List Rule) : Option (List Rule × Rule × List Rule) :=
  cutAtFirst? (fun rule => rule.head.enabled && isAbout field rule) rules

/-- Whether the key of an item is the field, or ends in it after a point. -/
def isKeyOf (field key : String) : Bool :=
  key = field || ('.' :: field.toList).isSuffixOf key.toList

def entryText? (field : String) : String × Value → Option String
  | (key, .string text) => if isKeyOf field key then some text else none
  | _ => none

def groupingValues (field : String) (value : Value) : List String :=
  Reading.nonBlank
    (match value with
    | .string text => [text]
    | .list texts _ => texts
    | .repeatable items _ _ => items.flatten.filterMap (entryText? field)
    | _ => [])

def stamp (entity : Entity) (field value : String) (document : Json) : Except Error Json :=
  let written :=
    Document.write (entity.rootKey ++ "." ++ field) (.string value) none document
  match written.failure? with
  | some e => .error e
  | none => .ok written.document

/-- One document for each distinct grouping value, or the document alone if there is none. -/
def split (entity : Entity) (field : String) (values : List String) (document : Json) :
    Except Error Mapped :=
  if values.isEmpty then .ok ⟨[document], []⟩
  else do
    let documents ← values.eraseDups.mapM fun value => stamp entity field value document
    .ok ⟨documents, values⟩

/-! ### Whole runs -/

def mapRules (setting : Setting) (entity : Entity) (rules : List Rule) (record : Marc.Record)
    (document : Json) : Except Error Mapped :=
  let single := do
    let document ← applyRules setting record rules (Document.start document)
    .ok ⟨[document], []⟩
  match entity.expansion setting.config with
  | .grouping field =>
    match heldBack? field rules with
    | none => single
    | some (before, held, after) => do
      let document ← applyRules setting record (before ++ after) (Document.start document)
      let value ← Reading.readAll setting held record
      split entity field (groupingValues field value) document
  | _ => single

def map (setting : Setting) (entity : Entity) (profile : Profile) (record : Marc.Record)
    (document : Json) : Except Error Mapped :=
  match profile.rules? with
  | none => .ok ⟨[document], []⟩
  | some rules => mapRules setting entity rules record document

theorem map_of_ne_holdings (setting : Setting) (entity : Entity) (rules : List Rule)
    (record : Marc.Record) (document : Json) (hentity : entity ≠ .holdings) :
    map setting entity ⟨some rules⟩ record document
      = (applyRules setting record rules (Document.start document)).map fun d => ⟨[d], []⟩ := by
  cases entity with
  | holdings => exact absurd rfl hentity
  | _ =>
    simp only [map, mapRules, Entity.expansion]
    cases applyRules setting record rules (Document.start document) <;> rfl

def gather (runs : List Mapped) : Mapped :=
  ⟨runs.flatMap Mapped.documents, runs.flatMap Mapped.groupingValues⟩

/-- Maps a record once for every occurrence of the tag, each time with that occurrence alone. A tag
that does not occur makes no difference. -/
def mapPerOccurrence (setting : Setting) (entity : Entity) (profile : Profile)
    (record : Marc.Record) (document : Json) (tag : String) : Except Error Mapped :=
  if profile.rules?.isNone || record.occurrences tag = 0 then
    map setting entity profile record document
  else do
    let occurrences := (List.range (record.occurrences tag)).filterMap fun index =>
      record.withOccurrence? tag index
    let runs ← occurrences.mapM fun occurrence => map setting entity profile occurrence document
    .ok (gather runs)

def mapBatch (setting : Setting) (entity : Entity) (profile : Profile)
    (records : List Marc.Record) : Except Error (List Mapped) :=
  records.mapM fun record => map setting entity profile record .null

end Mapping

end Crosswalk
