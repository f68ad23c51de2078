import CoinRelay.Yaml.Token

/-!
# Documents

A document is a scalar or a mapping of such. Its nodes are read from the tokens: a node may have an
anchor and a tag before it, an alias stands for the node of an anchor, and what is left out is an
empty plain scalar. A stream holds at most one document.

Anchors are numbered by how many different names there are before them, so two anchors may share a
number. An alias takes the number that its name has where the alias stands, and leads to the last
node of that number in the whole document.
-/

namespace CoinRelay.Yaml

inductive Node where
  | scalar (text : String) (style : Style) (tag : Option String) (anchor : Option Nat)
  | mapping (entries : List (Node × Node)) (anchor : Option Nat)
  | alias (anchor : Nat)
deriving Inhabited

namespace Node

/-- What stands for a node that is left out. -/
def absent : Node := .scalar "" .plain none none

mutual

/-- The nodes with an anchor, in the order in which they begin. -/
def anchored : Node → List (Nat × Node)
  | .scalar text style tag anchor =>
    (anchor.map (·, Node.scalar text style tag anchor)).toList
  | .mapping entries anchor =>
    (anchor.map (·, Node.mapping entries anchor)).toList ++ anchoredWithin entries
  | .alias _ => []

def anchoredWithin : List (Node × Node) → List (Nat × Node)
  | [] => []
  | (key, value) :: rest => anchored key ++ anchored value ++ anchoredWithin rest

end

/-! ## Reading nodes -/

/-- What a reader of nodes goes by: the tokens left, the numbers of the anchors, each name once, and
what the tag handles stand for. -/
structure Reading where
  tokens : List Token
  anchors : List (String × Nat) := []
  handles : List (String × String) := []

abbrev Reader := StateT Reading Option

def peek? : Reader (Option Token) := return (← get).tokens.head?

def advance : Reader Unit := modify fun r => { r with tokens := r.tokens.drop 1 }

def expect (t : Token) : Reader Unit := do
  if (← peek?) = some t then advance else failure

/-- What may stand before a node. -/
structure Properties where
  anchor : Option String := none
  tag : Option Tag := none

/-- Reads an anchor and a tag, each at most once. -/
def properties : (fuel : Nat) → Properties → Reader Properties
  | 0, p => return p
  | fuel + 1, p => do
    match ← peek? with
    | some (.anchor name) =>
      if p.anchor.isSome then return p
      advance
      properties fuel { p with anchor := some name }
    | some (.tag tag) =>
      if p.tag.isSome then return p
      advance
      properties fuel { p with tag := some tag }
    | _ => return p

/-- The number of an anchor; from here on its name has this number. -/
def number (name : String) : Reader Nat := do
  let anchors := (← get).anchors
  modify fun r => { r with anchors := (name, anchors.length) :: anchors.filter (·.1 ≠ name) }
  return anchors.length

/-- A token that closes the place of a key or a value in a block. -/
def closesBlock : Option Token → Bool
  | some .key | some .value | some .blockEnd => true
  | _ => false

def closesFlowKey : Option Token → Bool
  | some .value | some .entry | some .flowEnd => true
  | _ => false

def closesFlowValue : Option Token → Bool
  | some .entry | some .flowEnd => true
  | _ => false

mutual

/-- Reads a node; one by indentation only outside braces. -/
def read : (fuel : Nat) → (flow : Bool) → Reader Node
  | 0, _ => failure
  | fuel + 1, flow => do
    match ← peek? with
    | some (.alias name) =>
      advance
      let some anchor := (← get).anchors.lookup name | failure
      return .alias anchor
    | _ =>
      let p ← properties 2 {}
      let tag ← p.tag.mapM fun tag => do
        (tag.resolve? (← get).handles : Option String)
      let anchor ← p.anchor.mapM number
      match ← peek? with
      | some (.scalar text style) =>
        advance
        return .scalar text style tag anchor
      | some .flowStart =>
        advance
        return .mapping (← flowEntries fuel true) anchor
      | some .blockStart =>
        if flow then failure
        advance
        return .mapping (← blockEntries fuel) anchor
      | _ =>
        if p.anchor.isNone && p.tag.isNone then failure
        return .scalar "" .plain tag anchor

def blockEntries : (fuel : Nat) → Reader (List (Node × Node))
  | 0 => failure
  | fuel + 1 => do
    match ← peek? with
    | some .blockEnd =>
      advance
      return []
    | some .key =>
      advance
      let key ← if closesBlock (← peek?) then pure absent else read fuel false
      let value ← if (← peek?) = some .value then do
          advance
          if closesBlock (← peek?) then pure absent else read fuel false
        else pure absent
      return (key, value) :: (← blockEntries fuel)
    | _ => failure

/-- Reads the entries of a mapping in braces, up to the closing one. A comma stands between two
entries, and one may stand behind the last. -/
def flowEntries : (fuel : Nat) → (first : Bool) → Reader (List (Node × Node))
  | 0, _ => failure
  | fuel + 1, first => do
    if (← peek?) = some .flowEnd then
      advance
      return []
    if !first then expect .entry
    match ← peek? with
    | some .flowEnd =>
      advance
      return []
    | some .key =>
      advance
      let key ← if closesFlowKey (← peek?) then pure absent else read fuel true
      let value ← if (← peek?) = some .value then do
          advance
          if closesFlowValue (← peek?) then pure absent else read fuel true
        else pure absent
      return (key, value) :: (← flowEntries fuel false)
    | _ =>
      let key ← read fuel true
      return (key, absent) :: (← flowEntries fuel false)

end

/-! ## Reading documents -/

/-- The tag handles that directives declare, if the directives agree: one version at most, which is
known, and no handle twice. -/
def handles? (directives : List Directive) : Option (List (String × String)) :=
  let versions := directives.filterMap Directive.version?
  let handles := directives.filterMap Directive.handle?
  let known := versions.all fun v => v = (1, 1) ∨ v = (1, 2)
  if known ∧ versions.length ≤ 1 ∧ (handles.map Prod.fst).Nodup then some handles else none

def directives : List Token → List Directive
  | .directive d :: rest => d :: directives rest
  | _ => []

/-- Nothing of a document is there where its content is due. -/
def noContent : List Token → Bool
  | [] | .directive _ :: _ | .documentStart :: _ | .documentEnd :: _ => true
  | _ => false

/-- Reads the node that the tokens consist of, with nothing but document ends behind it. -/
def ofContent? (handles : List (String × String)) (tokens : List Token) : Option Node := do
  let (node, r) ← (read (2 * tokens.length + 2) false).run { tokens, handles }
  if r.tokens.all (· = .documentEnd) then some node else none

/-- Reads a document from its tokens; there is none in an empty stream. A document that is announced
may be left out, one that is not has to be there. -/
def ofTokens? (tokens : List Token) : Option (Option Node) :=
  let directives := directives tokens
  match tokens.drop directives.length with
  | .documentStart :: rest => do
    let handles ← handles? directives
    if noContent rest then
      if rest.all (· = .documentEnd) then some absent else none
    else ofContent? handles rest
  | rest =>
    if !directives.isEmpty then none
    else if rest.isEmpty then some none
    else (ofContent? [] rest).map some

end Node

/-- A document: its outermost node, and what the numbers of its anchors lead to. -/
structure Document where
  root : Node
  anchored : List (Nat × Node)

namespace Document

def ofRoot (root : Node) : Document := ⟨root, root.anchored.reverse⟩

def parse? (text : String) : Option (Option Document) := do
  return (← Node.ofTokens? (← tokens? text.toList)).map ofRoot

def follow (document : Document) : Node → Node
  | .alias anchor => (document.anchored.lookup anchor).getD (.alias anchor)
  | node => node

end Document

end CoinRelay.Yaml
