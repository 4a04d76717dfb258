import FlowGraph.Compiled
import FlowGraph.Proofs.Values

/-
  Reading documents back.

  The payload of a literal bears no mark of its form: three
  numbers may be a vector or a list of floats, and a whole
  number may be an identifier.  The type that stands beside
  the payload tells them apart, since a type accepts
  literals of one form only.  A reader that goes by the type
  recovers a finished graph from its document, so that no
  two graphs share one.

  Key definitions include:
    * `FlowGraph.Literal.ofJson?`
    * `FlowGraph.Compiled.ofJson?`
    * `FlowGraph.Value.Made`
    * `FlowGraph.Compiled.Printable`

  Key theorems include:
    * `FlowGraph.Literal.ofJson?_of_conform`
    * `FlowGraph.Compiled.ofJson?_toJson`
    * `FlowGraph.Compiled.eq_of_toJson_eq`
-/

------------------------------------------------------------
-- Members
------------------------------------------------------------

namespace FlowGraph.Json

/- The member of an object under a key. -/
def member?
    (key : String) :
    Json → Option Json
  | .obj members => members.lookup key
  | _ => none

/- The text under a key. -/
def text?
    (key : String)
    (doc : Json) :
    Option String :=
  match doc.member? key with
  | some (.str s) => some s
  | _ => none

/- The natural number under a key. -/
def nat?
    (key : String)
    (doc : Json) :
    Option Nat :=
  match doc.member? key with
  | some (.int i) => i.toNat?
  | _ => none

/- The items under a key.  There are none without it. -/
def items
    (key : String)
    (doc : Json) :
    List Json :=
  match doc.member? key with
  | some (.arr items) => items
  | _ => []

end FlowGraph.Json

------------------------------------------------------------
-- Names
------------------------------------------------------------

namespace FlowGraph

/- The class of nodes with a given name. -/
def NodeClass.ofName?
    (s : String) :
    Option NodeClass :=
  [exec, data].find? fun c => c.name = s

/- The name of a class is its own. -/
theorem NodeClass.ofName?_name
    (c : NodeClass) :
    ofName? c.name = some c := by
  cases c <;> decide

/- The name of a type is its own. -/
theorem ValueType.ofName?_name
    (t : ValueType) :
    ofName? t.name = some t := by
  cases t with
  | scalar s => cases s <;> decide
  | list s => cases s <;> decide
  | localVariable => decide
  | customVariableSnapshot => decide

end FlowGraph

------------------------------------------------------------
-- Literals
------------------------------------------------------------

namespace FlowGraph.Literal

/- A literal of a scalar type from its payload. -/
def ofJsonScalar? : Scalar → Json → Option Literal
  | .float, .float x => some (.float x)
  | .vec3, .arr [.float x, .float y, .float z] =>
      some (.vec3 x y z)
  | _, .bool b => some (.bool b)
  | _, .int i => some (.int (Int64.ofInt i))
  | _, .str s => some (.str s)
  | _, _ => none

/- A literal of a type from its payload. -/
def ofJson? : ValueType → Json → Option Literal
  | .scalar s, doc => ofJsonScalar? s doc
  | .list s, .arr docs => do
      let items ← docs.mapM (ofJsonScalar? s)
      some (.list items)
  | _, _ => none

mutual

/- Whether all floats of a literal are finite. -/
def isFinite : Literal → Bool
  | .float x => x.isFinite
  | .vec3 x y z => x.isFinite && y.isFinite && z.isFinite
  | .list items => isFiniteItems items
  | _ => true

/- Whether all floats of all items are finite. -/
def isFiniteItems : List Literal → Bool
  | [] => true
  | item :: rest => item.isFinite && isFiniteItems rest

end

/- The items of a list are written one by one. -/
theorem toJsonItems_eq_map
    (items : List Literal) :
    toJsonItems items = items.map toJson := by
  induction items with
  | nil => rfl
  | cons item rest ih => rw [toJsonItems, ih, List.map_cons]

/- The items of a finite list are finite. -/
theorem isFinite_of_mem
    {items : List Literal}
    (hFinite : isFiniteItems items)
    {l : Literal}
    (hl : l ∈ items) :
    l.isFinite := by
  induction items with
  | nil => cases hl
  | cons item rest ih =>
      rw [isFiniteItems, Bool.and_eq_true] at hFinite
      rcases List.mem_cons.mp hl with rfl | hl
      · exact hFinite.1
      · exact ih hFinite.2 hl

/- A finite float is written as a number. -/
theorem floatJson_of_isFinite
    {x : Float}
    (h : x.isFinite) :
    floatJson x = .float x := by
  rw [floatJson, if_pos h]

end FlowGraph.Literal

------------------------------------------------------------
-- Reading By Type
------------------------------------------------------------

namespace FlowGraph

/- Items that are read back make up the list again. -/
theorem mapM_map_of_inverse
    {α β : Type}
    {f : α → β}
    {g : β → Option α}
    {xs : List α}
    (h : ∀ x ∈ xs, g (f x) = some x) :
    (xs.map f).mapM g = some xs := by
  induction xs with
  | nil => rfl
  | cons x rest ih =>
      have hRest :=
        ih fun y hy => h y (List.mem_cons_of_mem _ hy)
      rw [List.map_cons, List.mapM_cons,
        h x List.mem_cons_self, hRest]
      rfl

namespace Literal

variable {s : Scalar} {l : Literal}

/-
  A literal that a scalar type accepts is read back at this
  type.  No other form of literal is accepted, so the
  payload is read the way it was written.
-/
theorem ofJsonScalar?_of_conform
    (hConform : conformScalar s l = .ok l)
    (hFinite : l.isFinite) :
    ofJsonScalar? s l.toJson = some l := by
  have hWord :
      ∀ i : Int64, ofJsonScalar? s (Literal.int i).toJson =
        some (.int i) := by
    intro i
    have hBack : Int64.ofInt i.toInt = i :=
      Int64.ofInt_toInt i
    rw [toJson, ofJsonScalar?, hBack]
  cases ofScalar_of_conform hConform with
  | bool b => rfl
  | str t => rfl
  | enumeration t => rfl
  | int i => exact hWord i
  | guid _ | faction _ | configId _ | prefabId _ =>
      exact hWord _
  | float x =>
      rw [toJson, floatJson_of_isFinite hFinite]
      rfl
  | vec3 x y z =>
      rw [isFinite, Bool.and_eq_true,
        Bool.and_eq_true] at hFinite
      rcases hFinite with ⟨⟨hx, hy⟩, hz⟩
      rw [toJson, floatJson_of_isFinite hx,
        floatJson_of_isFinite hy,
        floatJson_of_isFinite hz]
      rfl

/- A literal that a type accepts is read back at this type. -/
theorem ofJson?_of_conform
    {t : ValueType}
    (hConform : conform t l = .ok l)
    (hFinite : l.isFinite) :
    ofJson? t l.toJson = some l := by
  cases t with
  | scalar s => exact ofJsonScalar?_of_conform hConform hFinite
  | list s =>
      cases l with
      | list items =>
          rw [conform] at hConform
          rcases bind_eq_ok.mp hConform with
            ⟨items', hItems, hEq⟩
          cases hEq
          have hEach :
              ∀ k ∈ items, ofJsonScalar? s k.toJson = some k := by
            intro k hk
            rcases exists_of_mem_mapM hItems hk with
              ⟨_, _, hAccepted⟩
            apply ofJsonScalar?_of_conform
            · exact conformScalar_idem hAccepted
            · exact isFinite_of_mem hFinite hk
          rw [toJson, toJsonItems_eq_map, ofJson?,
            mapM_map_of_inverse hEach]
          rfl
      | _ => cases hConform
  | localVariable => cases hConform
  | customVariableSnapshot => cases hConform

end Literal

end FlowGraph

------------------------------------------------------------
-- Finished Graphs
------------------------------------------------------------

namespace FlowGraph

/- A value from its document. -/
def Value.ofJson?
    (doc : Json) :
    Option Value := do
  let type ← (doc.text? "type").bind ValueType.ofName?
  match doc.text? "kind" with
  | some "literal" => do
      let payload ← doc.member? "value"
      let l ← Literal.ofJson? type payload
      some ⟨type, .literal l⟩
  | some "pin" => do
      let node ← doc.nat? "node"
      let slot ← doc.text? "slot"
      let index ← doc.nat? "source_index"
      some (.pin type ⟨node, slot, index⟩)
  | _ => none

/- An output pin from its document. -/
def OutputPin.ofJson?
    (doc : Json) :
    Option OutputPin := do
  let name ← doc.text? "name"
  let type ← (doc.text? "type").bind ValueType.ofName?
  some ⟨name, type⟩

/- A link from its document. -/
def Connection.ofJson?
    (doc : Json) :
    Option Connection := do
  let index ← doc.nat? "source_index"
  let target ← doc.nat? "target"
  some ⟨index, target⟩

/- A finished node from its document. -/
def CompiledNode.ofJson?
    (doc : Json) :
    Option CompiledNode := do
  let id ← doc.nat? "id"
  let nodeClass ← (doc.text? "type").bind NodeClass.ofName?
  let nodeType ← doc.text? "node_type"
  let args ← (doc.items "args").mapM Value.ofJson?
  let outputs ← (doc.items "outputs").mapM OutputPin.ofJson?
  let connections ←
    (doc.items "exec_connections").mapM Connection.ofJson?
  some ⟨id, nodeClass, nodeType, args, outputs, connections⟩

/- A finished graph from its document. -/
def Compiled.ofJson?
    (doc : Json) :
    Option Compiled := do
  let name ← doc.text? "name"
  let nodes ← (doc.items "nodes").mapM CompiledNode.ofJson?
  some ⟨name, nodes⟩

/- The value comes from one of the constructors of values. -/
inductive Value.Made : Value → Prop where
  | literal
      {t : ValueType}
      {l : Literal}
      {v : Value} :
      Value.literal t l = .ok v → Made v
  | bool (b : Bool) : Made (.bool b)
  | int (i : Int64) : Made (.int i)
  | float (x : Float) : Made (.float x)
  | str (s : String) : Made (.str s)
  | pin (t : ValueType) (p : PinRef) : Made (.pin t p)

/- Whether all floats of a value are finite. -/
def Value.isFinite
    (v : Value) :
    Bool :=
  v.literal?.all Literal.isFinite

/-
  Every argument comes from a constructor of values and has
  finite floats only.
-/
def CompiledNode.Printable
    (n : CompiledNode) :
    Prop :=
  ∀ v ∈ n.args, v.Made ∧ v.isFinite

/- Every node has printable arguments. -/
def Compiled.Printable
    (c : Compiled) :
    Prop :=
  ∀ n ∈ c.nodes, n.Printable

/- Constructors make a literal only as its type accepts it. -/
theorem Value.Made.conform
    {v : Value}
    (hMade : v.Made)
    {l : Literal}
    (hl : v.literal? = some l) :
    l.conform v.type = .ok l := by
  cases hMade with
  | literal h =>
      rcases bind_eq_ok.mp h with ⟨l', hConform, hEq⟩
      cases hEq
      cases hl
      exact Literal.conform_idem hConform
  | pin => cases hl
  | bool => cases hl; rfl
  | int => cases hl; rfl
  | float => cases hl; rfl
  | str => cases hl; rfl

/- A printable value is read back. -/
theorem Value.ofJson?_toJson
    {v : Value}
    (hMade : v.Made)
    (hFinite : v.isFinite) :
    ofJson? v.toJson = some v := by
  rcases v with ⟨t, source⟩
  cases source with
  | literal l =>
      have hConform := hMade.conform rfl
      have hBack := Literal.ofJson?_of_conform hConform hFinite
      have hType :
          (toJson ⟨t, .literal l⟩).text? "type" =
            some t.name :=
        rfl
      have hKind :
          (toJson ⟨t, .literal l⟩).text? "kind" =
            some "literal" :=
        rfl
      have hPayload :
          (toJson ⟨t, .literal l⟩).member? "value" =
            some l.toJson :=
        rfl
      simp [ofJson?, hType, hKind, hPayload, hBack,
        ValueType.ofName?_name]
  | pin p =>
      have hType :
          (toJson ⟨t, .pin p⟩).text? "type" = some t.name :=
        rfl
      have hKind :
          (toJson ⟨t, .pin p⟩).text? "kind" = some "pin" :=
        rfl
      have hNode :
          (toJson ⟨t, .pin p⟩).nat? "node" = some p.node :=
        rfl
      have hSlot :
          (toJson ⟨t, .pin p⟩).text? "slot" = some p.slot :=
        rfl
      have hIndex :
          (toJson ⟨t, .pin p⟩).nat? "source_index" =
            some p.index :=
        rfl
      simp [ofJson?, hType, hKind, hNode, hSlot, hIndex,
        ValueType.ofName?_name, pin]

/- An output pin is read back. -/
theorem OutputPin.ofJson?_toJson
    (pin : OutputPin) :
    ofJson? pin.toJson = some pin := by
  have hName : pin.toJson.text? "name" = some pin.name :=
    rfl
  have hType : pin.toJson.text? "type" = some pin.type.name :=
    rfl
  simp [ofJson?, hName, hType, ValueType.ofName?_name]

/- A link is read back. -/
theorem Connection.ofJson?_toJson
    (c : Connection) :
    ofJson? c.toJson = some c :=
  rfl

end FlowGraph

namespace FlowGraph.CompiledNode

variable (n : CompiledNode)

/- The outputs of a node are written even if it has no links. -/
theorem items_outputs :
    n.toJson.items "outputs" =
      n.outputs.map OutputPin.toJson := by
  simp only [toJson, Json.items, Json.member?]
  cases n.outputs <;> cases n.connections <;> rfl

/- The links of a node are written even if it has no outputs. -/
theorem items_connections :
    n.toJson.items "exec_connections" =
      n.connections.map Connection.toJson := by
  simp only [toJson, Json.items, Json.member?]
  cases n.outputs <;> cases n.connections <;> rfl

end FlowGraph.CompiledNode

namespace FlowGraph

/- A printable node is read back. -/
theorem CompiledNode.ofJson?_toJson
    {n : CompiledNode}
    (hPrintable : n.Printable) :
    ofJson? n.toJson = some n := by
  have hArgs :
      (n.args.map Value.toJson).mapM Value.ofJson? =
        some n.args :=
    mapM_map_of_inverse fun v hv =>
      Value.ofJson?_toJson (hPrintable v hv).1
        (hPrintable v hv).2
  have hOutputs :
      (n.outputs.map OutputPin.toJson).mapM
        OutputPin.ofJson? = some n.outputs :=
    mapM_map_of_inverse fun pin _ =>
      OutputPin.ofJson?_toJson pin
  have hConnections :
      (n.connections.map Connection.toJson).mapM
        Connection.ofJson? = some n.connections :=
    mapM_map_of_inverse fun c _ =>
      Connection.ofJson?_toJson c
  have hId : n.toJson.nat? "id" = some n.id := rfl
  have hClass : n.toJson.text? "type" = some n.nodeClass.name :=
    rfl
  have hType : n.toJson.text? "node_type" = some n.nodeType :=
    rfl
  have hItems :
      n.toJson.items "args" = n.args.map Value.toJson :=
    rfl
  simp [ofJson?, hId, hClass, hType, hItems,
    NodeClass.ofName?_name, items_outputs, items_connections,
    hArgs, hOutputs, hConnections]

/- A printable graph is read back from its document. -/
theorem Compiled.ofJson?_toJson
    {c : Compiled}
    (hPrintable : c.Printable) :
    ofJson? c.toJson = some c := by
  have hNodes :
      (c.nodes.map CompiledNode.toJson).mapM
        CompiledNode.ofJson? = some c.nodes :=
    mapM_map_of_inverse fun n hn =>
      CompiledNode.ofJson?_toJson (hPrintable n hn)
  have hName : c.toJson.text? "name" = some c.name := rfl
  have hItems :
      c.toJson.items "nodes" =
        c.nodes.map CompiledNode.toJson :=
    rfl
  simp [ofJson?, hName, hItems, hNodes]

/-
  Finished graphs with the same document are the same, down
  to the form of every literal.
-/
theorem Compiled.eq_of_toJson_eq
    {c c' : Compiled}
    (hPrintable : c.Printable)
    (hPrintable' : c'.Printable)
    (hDocument : c.toJson = c'.toJson) :
    c = c' := by
  have hBack : ofJson? c.toJson = some c :=
    ofJson?_toJson hPrintable
  rw [hDocument, ofJson?_toJson hPrintable'] at hBack
  exact (Option.some.inj hBack).symm

/- A graph with a node that follows a path at some speed. -/
def Compiled.following
    (path : Value) :
    Compiled where
  name := "demo"
  nodes :=
    [{ id := 1
       nodeClass := .exec
       nodeType := "follow"
       args := [path, .pin .float ⟨2, "speed", 0⟩]
       outputs := []
       connections := [⟨0, 3⟩] }]

/- The graph is printable if the path is. -/
theorem Compiled.printable_following
    {path : Value}
    (hMade : path.Made)
    (hFinite : path.isFinite) :
    (following path).Printable := by
  intro n hn v hv
  cases List.mem_singleton.mp hn
  rcases List.mem_cons.mp hv with rfl | hv
  · exact ⟨hMade, hFinite⟩
  · cases List.mem_singleton.mp hv
    exact ⟨.pin _ _, rfl⟩

/-
  Whole numbers are adapted to a vector before anything is
  written, so that two spellings of a point make one graph.
-/
theorem Compiled.spellings_of_point :
    ∃ path path',
      Value.literal (.list .vec3)
          (.list [.list [.int 1, .int 2, .int 3]]) = .ok path ∧
        Value.literal (.list .vec3)
          (.list [.vec3 1 2 3]) = .ok path' ∧
        (following path).Printable ∧
        (following path').Printable ∧
        (following path).toJson = (following path').toJson ∧
        following path = following path' := by
  have hInts :
      Value.literal (.list .vec3)
          (.list [.list [.int 1, .int 2, .int 3]]) =
        .ok ⟨.list .vec3, .literal (.list [.vec3 1 2 3])⟩ := by
    rfl
  have hFloats :
      Value.literal (.list .vec3) (.list [.vec3 1 2 3]) =
        .ok ⟨.list .vec3, .literal (.list [.vec3 1 2 3])⟩ := by
    rfl
  have hPrintable :=
    printable_following (.literal hInts) (by decide +kernel)
  have hPrintable' :=
    printable_following (.literal hFloats) (by decide +kernel)
  exact ⟨_, _, hInts, hFloats, hPrintable, hPrintable', rfl,
    eq_of_toJson_eq hPrintable hPrintable' rfl⟩

/- By their payloads a vector and a list are the same. -/
example :
    (Literal.vec3 1 2 3).toJson =
      (Literal.list [.float 1, .float 2, .float 3]).toJson := by
  rfl

end FlowGraph
