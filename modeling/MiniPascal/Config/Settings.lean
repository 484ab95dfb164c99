import MiniPascal.Config
import MiniPascal.Text.Base64
import MiniPascal.Yaml.Document

/-!
# Settings in a configuration file

A configuration is read from a YAML mapping whose keys are the names of the settings. Keys that
name no setting are ignored, and a null leaves a setting as it is. Other mappings can be merged into
it; they set what it does not set itself. A document that consists of hardly anything but the same
nodes over and over is refused.

Values of the wrong type are all reported together. An unknown format is reported alone, and so is
a key that is given twice.
-/
namespace MiniPascal

inductive SettingType
  | bool
  | string
  | format
  | config
  deriving Repr, DecidableEq, Inhabited

def SettingType.text : SettingType → String
  | bool => "bool"
  | string => "string"
  | format => "config.Format"
  | config => "config.Config"

inductive SettingError
  | wrongType (node : Yaml.Node) (wanted : SettingType)
  | repeatedKey (key : String) (line first : Nat)
  | repeatedField (name : String) (line : Nat)
  deriving Repr, Inhabited

namespace SettingError

/-- A value as a message shows it: a long one is cut behind its seventh byte. -/
def shownValue (value : String) : String :=
  let bytes := Text.encode value
  if 10 < bytes.length then Text.display (bytes.take 7) ++ "..." else value

def message : SettingError → String
  | wrongType node wanted =>
    let isCollection := node.tag = Yaml.Node.sequenceTag || node.tag = Yaml.Node.mappingTag
    let shown := if isCollection then node.value else " `" ++ shownValue node.value ++ "`"
    "line " ++ toString node.line ++ ": cannot unmarshal " ++ node.tag ++ shown ++ " into " ++
      wanted.text
  | repeatedKey key line first =>
    "line " ++ toString line ++ ": mapping key " ++ Text.quote (Text.encode key) ++
      " already defined at line " ++ toString first
  | repeatedField name line =>
    "line " ++ toString line ++ ": field " ++ name ++ " already set in type " ++
      SettingType.config.text

end SettingError

inductive ConfigError
  | malformed (m : Yaml.Malformed)
  | settings (errors : List SettingError)
  | unknownFormat (line : Nat) (value : Bytes)
  | otherTag (own : Yaml.Tag) (value given : String)
  | invalidBinary
  | mergeOfNoMapping
  | selfContained (anchor : String)
  | excessiveAliasing
  deriving Repr, Inhabited

def ConfigError.message : ConfigError → String
  | malformed m => m.message
  | settings errors =>
    "yaml: unmarshal errors:" ++ String.join (errors.map fun e => "\n  " ++ e.message)
  | unknownFormat line value => "line " ++ toString line ++ ": " ++ Format.unknownMessage value
  | otherTag own value given =>
    "yaml: cannot decode " ++ own.text ++ " `" ++ value ++ "` as a " ++ given
  | invalidBinary => "yaml: !!binary value contains invalid base64 data"
  | mergeOfNoMapping => "yaml: map merge requires map or sequence of maps as the value"
  | selfContained anchor => "yaml: anchor '" ++ anchor ++ "' value contains itself"
  | excessiveAliasing => "yaml: document contains excessive aliasing"

namespace Config

inductive Content
  | null
  | truth (b : Bool)
  | text (bytes : Bytes)
  | other
  deriving Repr, Inhabited

def spelledTags : List Yaml.Tag := [.bool, .int, .float, .null, .timestamp]

/-- What a scalar with a tag holds. A given tag of a type that its text does not spell is an error,
except that integers of the signed range are reals too. Other tags are kept and make it a text. -/
def content (tag value : String) : Except ConfigError Content :=
  match spelledTags.find? fun t => t.text == tag with
  | some given =>
    let own := Yaml.tagOf value (given = .timestamp)
    if own = given then
      match own with
      | .null => .ok .null
      | .bool => .ok (.truth (Yaml.trueWords.contains value))
      | _ => .ok .other
    else if given = .float && own = .int && !Yaml.isUnsigned (value.toList.filter (· ≠ '_')) then
      .ok .other
    else .error (.otherTag own value tag)
  | none =>
    if tag = Yaml.Node.binaryTag then
      match Text.ofBase64? value with
      | some bytes => .ok (.text bytes)
      | none => .error .invalidBinary
    else .ok (.text (Text.encode value))

def oldTruth? (word : Bytes) : Option Bool :=
  if Yaml.oldTrueWords.any (Text.encode · == word) then some true
  else if Yaml.oldFalseWords.any (Text.encode · == word) then some false
  else none

def repeatedKeys : List (Yaml.Node × Yaml.Node) → List SettingError
  | [] => []
  | (key, _) :: rest =>
    ((rest.filter fun (other, _) => key.sameKey other).map fun (other, _) =>
      .repeatedKey other.value other.line key.line) ++ repeatedKeys rest

/-- The errors of a collection that stands where a scalar is wanted. -/
def shapeErrors (wanted : SettingType) (node : Yaml.Node) : List SettingError :=
  match node with
  | .mapping _ entries _ =>
    match repeatedKeys entries with
    | [] => [.wrongType node wanted]
    | errors => errors
  | node => [.wrongType node wanted]

structure Effort where
  nodes : Nat := 0
  aliased : Nat := 0
  deriving Repr, DecidableEq, Inhabited

/-- Whether too many nodes have been read through aliases. A hundred of them, and a thousand nodes
in all, are always allowed. Of more nodes they can be 99 percent, and that share falls evenly to
ten percent between 400000 and 4000000 nodes. -/
def Effort.isExcessive (e : Effort) : Bool :=
  let span := 3600000
  let above := min (e.nodes - 400000) span
  100 < e.aliased && 1000 < e.nodes &&
    e.nodes * (99 * span - 89 * above) < e.aliased * (100 * span)

structure Reading where
  config : Config := {}
  errors : List SettingError := []
  effort : Effort := {}

def Reading.report (r : Reading) (errors : List SettingError) : Reading :=
  { r with errors := r.errors ++ errors }

def Reading.count (r : Reading) (aliased : Bool) : Except ConfigError Reading :=
  let e := r.effort
  let effort : Effort :=
    { nodes := e.nodes + 1, aliased := if aliased then e.aliased + 1 else e.aliased }
  if effort.isExcessive then .error .excessiveAliasing else .ok { r with effort }

def Reading.visit (r : Reading) (aliased : Bool) (node : Yaml.Node) :
    Except ConfigError Reading := do
  let r ← r.count aliased
  match node with
  | .reference .. => r.count true
  | _ => return r

def readBool (r : Reading) (node : Yaml.Node) (set : Config → Bool → Config) :
    Except ConfigError Reading := do
  match node.target with
  | .scalar tag value line =>
    let truth? : Option Bool := match ← content tag value with
      | .truth b => some b
      | .text word => oldTruth? word
      | _ => none
    match truth? with
    | some b => return { r with config := set r.config b }
    | none =>
      if tag = Yaml.Tag.null.text then return r
      else return r.report [.wrongType (.scalar tag value line) .bool]
  | node => return r.report (shapeErrors .bool node)

/-- Reads a format. A null is not taken for a text. -/
def readFormat (r : Reading) (node : Yaml.Node) : Except ConfigError Reading := do
  match node.target with
  | .scalar tag value line =>
    let text := match ← content tag value with
      | .text bytes => bytes
      | _ => Text.encode value
    if tag = Yaml.Tag.null.text then return r
    match Format.ofBytes? text with
    | some format => return { r with config := { r.config with format } }
    | none => throw (.unknownFormat line text)
  | node =>
    let wanted := if node.tag = Yaml.Tag.null.text then .format else .string
    return r.report (shapeErrors wanted node)

def readKey (r : Reading) (key : Yaml.Node) : Except ConfigError (Option Bytes × Reading) := do
  match key.target with
  | .scalar tag value _ =>
    match ← content tag value with
    | .null => return (none, r)
    | .text bytes => return (some bytes, r)
    | _ => return (some (Text.encode value), r)
  | node => return (none, r.report (shapeErrors .string node))

def fields : List (String × (Reading → Yaml.Node → Except ConfigError Reading)) :=
  [("log_scope", fun r node => readBool r node fun c b => { c with logScope := b }),
    ("log_stack", fun r node => readBool r node fun c b => { c with logStack := b }),
    ("format", readFormat)]

structure MappingState where
  reading : Reading
  /-- Whether the mapping is read through an alias. -/
  aliased : Bool
  /-- The keys that a merged mapping does not set any more, none outside of one. -/
  passed : Option (List Bytes)
  /-- The fields that this mapping has set. -/
  done : List String := []

def readEntry (s : MappingState) (key node : Yaml.Node) : Except ConfigError MappingState := do
  let (text, r) ← readKey (← s.reading.visit s.aliased key) key
  let s := { s with reading := r }
  match text with
  | none => return s
  | some text =>
    if s.passed.any (·.contains text) then return s
    let s := { s with passed := s.passed.map (text :: ·) }
    match fields.find? fun (name, _) => Text.encode name == text with
    | none => return s
    | some (name, read) =>
      if s.done.contains name then
        return { s with reading := s.reading.report [.repeatedField name key.line] }
      let r ← read (← s.reading.visit s.aliased node) node
      return { s with reading := r, done := name :: s.done }

def keyTexts (entries : List (Yaml.Node × Yaml.Node)) : List Bytes :=
  entries.filterMap fun (key, _) =>
    match readKey {} key with
    | .ok (text, _) => text
    | .error _ => none

mutual

/-- Reads the entries of a mapping, and then those that are merged into it. The number bounds the
depth of merging. -/
def readMapping (r : Reading) (aliased : Bool) (passed : Option (List Bytes))
    (entries : List (Yaml.Node × Yaml.Node)) :
    Nat → Except ConfigError (Reading × Option (List Bytes))
  | 0 => .ok (r, passed)
  | n + 1 => do
    match repeatedKeys entries with
    | [] =>
      let own := entries.filter fun (key, _) => !key.isMerge
      let s ← own.foldlM (fun s (key, node) => readEntry s key node)
        { reading := r, aliased, passed }
      match (entries.filter fun (key, _) => key.isMerge).getLast? with
      | none => return (s.reading, s.passed)
      | some (_, node) =>
        let nodes := match node with
          | .sequence _ items _ => items
          | node => [node]
        let (r, start) ← match s.passed with
          | some passed => pure (s.reading, passed)
          | none => do
            let r ← entries.foldlM (fun r (key, _) => Reading.visit r aliased key) s.reading
            pure (r, keyTexts entries)
        let (r, all) ← mergeAll r aliased start nodes n
        return (r, s.passed.map fun _ => all)
    | errors => return (r.report errors, passed)
termination_by structural n => n

def mergeAll (r : Reading) (aliased : Bool) (passed : List Bytes) (nodes : List Yaml.Node) :
    Nat → Except ConfigError (Reading × List Bytes)
  | 0 => .ok (r, passed)
  | n + 1 => do
    match nodes with
    | [] => return (r, passed)
    | node :: rest =>
      match node, node.target with
      | .reference anchor true _ _, .mapping .. => throw (.selfContained anchor)
      | .reference .., .mapping _ entries _ =>
        let (r, passed) ← readMapping (← r.visit aliased node) true (some passed) entries n
        mergeAll r aliased (passed.getD []) rest n
      | _, .mapping _ entries _ =>
        let (r, passed) ← readMapping (← r.visit aliased node) aliased (some passed) entries n
        mergeAll r aliased (passed.getD []) rest n
      | _, _ => throw .mergeOfNoMapping
termination_by structural n => n

end

def ofNode (bound : Nat) (node : Yaml.Node) : Except ConfigError Config := do
  let r ← match node with
    | .mapping _ entries _ =>
      let start : Reading := { effort := { nodes := 2 } }
      Prod.fst <$> readMapping start false none entries bound
    | .scalar tag value _ =>
      match ← content tag value with
      | .null => pure {}
      | _ => pure { errors := [.wrongType node .config] }
    | node => pure { errors := [.wrongType node .config] }
  if r.errors.isEmpty then return r.config else throw (.settings r.errors)

/-- Reads a configuration file. An empty one leaves all settings as they are. -/
def ofBytes (bytes : Bytes) : Except ConfigError Config :=
  match Yaml.read bytes with
  | .error m => .error (.malformed m)
  | .ok none => .ok {}
  | .ok (some node) => ofNode (2 * bytes.length + 2) node

def parseMessage (path : String) (e : ConfigError) : String :=
  "config: parse " ++ path ++ ": " ++ e.message

end Config

end MiniPascal
