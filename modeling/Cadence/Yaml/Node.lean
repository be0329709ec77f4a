import Cadence.Table.Basic
import Cadence.Yaml.Token

/-!
The tree that the lexemes of a YAML text describe.

An alias is kept as a reference to the node it names, so that a node may be
referred to from within itself.  Tags have no meaning here, but their handles
have to be declared.

Reading descends through the lexemes with a bound on the depth; between two
descents at most two steps take no lexeme, so the bound is computed from the
number of lexemes and never reached.
-/

namespace Cadence.Yaml

inductive Node where
  | scalar (text : String) (plain : Bool)
  | sequence (items : List Node)
  | mapping (pairs : List (Node × Node))
  | alias (target : Nat)
  deriving Inhabited

/-- What stands where nothing is written. -/
def Node.missing : Node := .scalar "" true

structure Document where
  root : Node
  /-- The anchored nodes by their number in the text. -/
  targets : Table Nat Node

namespace Node

structure Reading where
  tokens : List Token
  handles : List String := []
  /-- The node that a name stands for at this point of the text. -/
  names : Table String Nat := ∅
  anchored : Nat := 0
  targets : Table Nat Node := ∅

abbrev Reader := StateT Reading Option

namespace Reader

def peek : Reader Token := do
  match (← get).tokens.head? with
  | some t => return t
  | none => failure

def skip : Reader Unit :=
  modify (fun r => { r with tokens := r.tokens.drop 1 })

/-- Passes `t`, which must come next. -/
def expect (t : Token) : Reader Unit := do
  if (← peek) = t then skip else failure

def anchor? : Reader (Option String) := do
  match ← peek with
  | .anchor name => skip; return some name
  | _ => return none

/-- Passes a tag, if one comes next. -/
def tag : Reader Bool := do
  match ← peek with
  | .tag handle =>
      if handle ∈ "" :: "!" :: "!!" :: (← get).handles then skip; return true
      else failure
  | _ => return false

/-- Gives the name to a node that is about to be read. -/
def openAnchor (name : String) : Reader Nat := do
  let r ← get
  set { r with names := r.names.insert name r.anchored, anchored := r.anchored + 1 }
  return r.anchored

def closeAnchor (n : Nat) (node : Node) : Reader Unit :=
  modify (fun r => { r with targets := r.targets.insert n node })

end Reader

open Reader

mutual

/-- A node; block collections and sequences without indentation of their own only where allowed. -/
def read : Nat → (block indentless : Bool) → Reader Node
  | 0, _, _ => failure
  | fuel + 1, block, indentless => do
      if let .alias name := ← peek then
        skip
        match (← get).names[name]? with
        | some n => return .alias n
        | none => failure
      let before ← anchor?
      let tagged ← tag
      let anchor ← if before.isNone && tagged then anchor? else pure before
      let here ← anchor.mapM openAnchor
      let node ← content fuel block indentless (tagged || anchor.isSome)
      if let some n := here then closeAnchor n node
      return node

/-- A node without its anchor and tag; it may be missing if it had one of them. -/
def content : Nat → (block indentless marked : Bool) → Reader Node
  | 0, _, _, _ => failure
  | fuel + 1, block, indentless, marked => do
      match ← peek with
      | .scalar text plain => skip; return .scalar text plain
      | .flowSequenceStart => skip; return .sequence (← flowItems fuel true)
      | .flowMappingStart => skip; return .mapping (← flowPairs fuel true)
      | .blockEntry =>
          if indentless then return .sequence (← indentlessItems fuel)
          else if marked then return missing
          else failure
      | .blockSequenceStart =>
          if block then skip; return .sequence (← blockItems fuel)
          else if marked then return missing
          else failure
      | .blockMappingStart =>
          if block then skip; return .mapping (← blockPairs fuel)
          else if marked then return missing
          else failure
      | _ => if marked then return missing else failure

/-- A node, or the missing one if a lexeme from `ends` comes next. -/
def readUnless : Nat → (ends : List Token) → (block indentless : Bool) → Reader Node
  | 0, _, _, _ => failure
  | fuel + 1, ends, block, indentless => do
      if (← peek) ∈ ends then return missing else read fuel block indentless

def blockItems : Nat → Reader (List Node)
  | 0 => failure
  | fuel + 1 => do
      match ← peek with
      | .blockEntry =>
          skip
          let item ← readUnless fuel [.blockEntry, .blockEnd] true false
          return item :: (← blockItems fuel)
      | .blockEnd => skip; return []
      | _ => failure

/-- Entries at the indentation of the mapping around them, which end without a lexeme. -/
def indentlessItems : Nat → Reader (List Node)
  | 0 => failure
  | fuel + 1 => do
      match ← peek with
      | .blockEntry =>
          skip
          let item ← readUnless fuel [.blockEntry, .key, .value, .blockEnd] true false
          return item :: (← indentlessItems fuel)
      | _ => return []

def blockPairs : Nat → Reader (List (Node × Node))
  | 0 => failure
  | fuel + 1 => do
      match ← peek with
      | .key =>
          skip
          let key ← readUnless fuel [.key, .value, .blockEnd] true true
          let value ← valueUnless fuel [.key, .value, .blockEnd] true
          return (key, value) :: (← blockPairs fuel)
      | .blockEnd => skip; return []
      | _ => failure

/-- What follows a key: nothing, or a colon with a node or without one. -/
def valueUnless : Nat → (ends : List Token) → (block : Bool) → Reader Node
  | 0, _, _ => failure
  | fuel + 1, ends, block => do
      if (← peek) = .value then
        skip
        readUnless fuel ends block block
      else return missing

/-- The entries up to the closing bracket; a comma precedes each but the first. -/
def flowItems : Nat → (first : Bool) → Reader (List Node)
  | 0, _ => failure
  | fuel + 1, first => do
      if (← peek) = .flowSequenceEnd then
        skip
        return []
      if !first then expect .flowEntry
      match ← peek with
      | .flowSequenceEnd => skip; return []
      | .key =>
          skip
          let pair ← flowPair fuel
          return .mapping [pair] :: (← flowItems fuel false)
      | _ =>
          let item ← read fuel false false
          return item :: (← flowItems fuel false)

/-- A pair written as an entry of a sequence.  Without a key the next lexeme is passed over. -/
def flowPair : Nat → Reader (Node × Node)
  | 0 => failure
  | fuel + 1 => do
      let key ←
        if (← peek) ∈ [.value, .flowEntry, .flowSequenceEnd] then do skip; pure missing
        else read fuel false false
      return (key, ← valueUnless fuel [.flowEntry, .flowSequenceEnd] false)

/-- The pairs up to the closing brace; a key without a colon has no value. -/
def flowPairs : Nat → (first : Bool) → Reader (List (Node × Node))
  | 0, _ => failure
  | fuel + 1, first => do
      if (← peek) = .flowMappingEnd then
        skip
        return []
      if !first then expect .flowEntry
      match ← peek with
      | .flowMappingEnd => skip; return []
      | .key =>
          skip
          let key ← readUnless fuel [.value, .flowEntry, .flowMappingEnd] false false
          let value ← valueUnless fuel [.flowEntry, .flowMappingEnd] false
          return (key, value) :: (← flowPairs fuel false)
      | _ =>
          let key ← read fuel false false
          return (key, missing) :: (← flowPairs fuel false)

end

/-- Passes directives and declares their handles; the version may be given once. -/
def directives : List Token → (versioned : Bool) → List String →
    Option (Bool × List String × List Token)
  | .version major minor :: rest, versioned, handles =>
      if versioned || major ≠ 1 || !(minor = 1 || minor = 2) then none
      else directives rest true handles
  | .tagDirective handle :: rest, versioned, handles =>
      if handle ∈ handles then none else directives rest versioned (handle :: handles)
  | rest, versioned, handles => some (versioned, handles, rest)

def isDocumentMark : Token → Bool
  | .version .. | .tagDirective .. | .documentStart | .documentEnd | .streamEnd => true
  | _ => false

end Node

/-- The single document of a text; nothing at all reads as a missing node. -/
def Document.ofTokens? (tokens : List Token) : Option Document := do
  if tokens = [.streamEnd] then return ⟨Node.missing, ∅⟩
  let (versioned, handles, behind) ← Node.directives tokens false []
  let explicit := versioned || !handles.isEmpty || behind.head? = some .documentStart
  if explicit && behind.head? ≠ some .documentStart then failure
  let body := if explicit then behind.drop 1 else behind
  let fuel := 4 * body.length + 4
  let (root, reading) ←
    if explicit && body.head?.any Node.isDocumentMark then some (Node.missing, { tokens := body })
    else (Node.read fuel true false).run { tokens := body, handles }
  if reading.tokens.dropWhile (· = .documentEnd) = [.streamEnd] then
    return ⟨root, reading.targets⟩
  else failure

def parse? (text : String) : Option Document := do
  Document.ofTokens? (← scan text.toList)

/-- The node itself, or the one an alias refers to. -/
def Document.resolve (d : Document) : Node → Option Node
  | .alias n => d.targets[n]?
  | node => some node

end Cadence.Yaml
