import PhpCheck.Node.Document
import Mathlib.Tactic.Lemma

/-!
# Documents read back as the trees they are written from

`Node.ofJson_toJson`: what `Node.toJson` writes, `Node.ofJson` reads back, for trees of any shape and
depth whose float literals are finite.

`Json.Reads` says that a reader gives a value for a document with any room that the document fits in.
It holds for a kind of node as soon as it holds for the nodes right inside it, and a node leaves the
nodes inside it one level less of room.
-/

namespace PhpCheck

namespace Json

/-! ### Depth -/

lemma itemsDepth_le_iff {items : List Json} {room : Nat} :
    itemsDepth items ≤ room ↔ ∀ item ∈ items, item.depth ≤ room := by
  induction items with
  | nil => simp [itemsDepth]
  | cons item rest ih => rw [itemsDepth, Nat.max_le, ih, List.forall_mem_cons]

lemma membersDepth_le_iff {members : List (Option String × Json)} {room : Nat} :
    membersDepth members ≤ room ↔ ∀ member ∈ members, member.2.depth ≤ room := by
  induction members with
  | nil => simp [membersDepth]
  | cons member rest ih => rw [membersDepth, Nat.max_le, ih, List.forall_mem_cons]

lemma depth_array_le_iff {items : List Json} {room : Nat} :
    (array items).depth ≤ room
      ↔ ∃ inner, room = inner + 1 ∧ ∀ item ∈ items, item.depth ≤ inner := by
  cases room with
  | zero => simp [depth]
  | succ inner => simp [depth, itemsDepth_le_iff]

lemma depth_record_le_iff {fields : List (String × Json)} {room : Nat} :
    (record fields).depth ≤ room
      ↔ ∃ inner, room = inner + 1 ∧ ∀ field ∈ fields, field.2.depth ≤ inner := by
  cases room with
  | zero => simp [record, depth]
  | succ inner =>
    rw [record, depth, Nat.add_le_add_iff_right, membersDepth_le_iff, List.forall_mem_map]
    simp

/-! ### Records and lists -/

variable {α : Type} {bound : Nat}

/-- The reader gives the value for the document, with any room up to a bound that the document fits
in. -/
def Reads (bound : Nat) (read : Nat → Json → Option α) (json : Json) (value : α) : Prop :=
  ∀ room ≤ bound, json.depth ≤ room → read room json = some value

lemma mapM_of_forall_mem {β : Type} {f : α → Option β} {g : α → β} {values : List α}
    (h : ∀ value ∈ values, f value = some (g value)) : values.mapM f = some (values.map g) := by
  induction values with
  | nil => rfl
  | cons value rest ih =>
    obtain ⟨hvalue, hrest⟩ := List.forall_mem_cons.mp h
    simp [hvalue, ih hrest]

/-- Among members with distinct keys each key has its own value. -/
lemma member?_of_nodup {fields : List (String × Json)} (hnodup : (fields.map Prod.fst).Nodup)
    {field : String × Json} (h : field ∈ fields) :
    member? (fields.map fun field => (some field.1, field.2)) field.1 = some (.given field.2) := by
  have hfilter : fields.filter (fun other => other.1 == field.1) = [field] := by
    induction fields with
    | nil => cases h
    | cons first rest ih =>
      obtain ⟨hfirst, hrest⟩ := List.nodup_cons.mp hnodup
      rcases List.mem_cons.mp h with rfl | h
      · have hnone : rest.filter (fun other => other.1 == field.1) = [] := by
          rw [List.filter_eq_nil_iff]
          intro other hother heq
          exact hfirst (eq_of_beq heq ▸ List.mem_map_of_mem hother)
        rw [List.filter_cons_of_pos (by simp), hnone]
      · have hne : first.1 ≠ field.1 := fun heq => hfirst (heq ▸ List.mem_map_of_mem h)
        rw [List.filter_cons_of_neg (by simpa using hne), ih hrest h]
  have hmembers : (fields.map fun field => (some field.1, field.2)).filter
      (fun member => member.1 == some field.1) = [(some field.1, field.2)] := by
    simp only [List.filter_map, Function.comp_def, Option.some_beq_some, hfilter, List.map_cons,
      List.map_nil]
  rw [member?, hmembers]

/-- A record that is written in full gives every field. -/
lemma record?_record {fields : List (String × Json)} (hnodup : (fields.map Prod.fst).Nodup)
    (inner : Nat) :
    (record fields).record? (inner + 1) (fields.map Prod.fst)
      = some (inner, fields.map fun field => .given field.2) := by
  have hkeys : (fields.map fun field => (some field.1, field.2)).all
      (fun member => member.1.isSome) = true := by simp
  have hslots : (fields.map Prod.fst).mapM
      (member? (fields.map fun field => (some field.1, field.2)))
        = some (fields.map fun field => .given field.2) := by
    rw [List.mapM_map]
    exact mapM_of_forall_mem fun field hfield => member?_of_nodup hnodup hfield
  simp only [record?, enter, record, slots?, hkeys, if_true, hslots, Option.bind_eq_bind,
    Option.bind_some, Option.pure_def]

/-- A record is read by what is built from its fields. -/
lemma Reads.record {fields : List (String × Json)} {names : List String} {value : α}
    {build : Nat × List Slot → Option α} (hnames : fields.map Prod.fst = names) (hnodup : names.Nodup)
    (h : ∀ inner < bound, (∀ field ∈ fields, field.2.depth ≤ inner) →
      build (inner, fields.map fun field => .given field.2) = some value) :
    Reads bound (fun room json => json.record? room names >>= build) (record fields) value := by
  intro room hroom hdepth
  obtain ⟨inner, rfl, hfields⟩ := depth_record_le_iff.mp hdepth
  subst hnames
  simp only [record?_record hnodup, Option.bind_eq_bind, Option.bind_some]
  exact h inner hroom hfields

lemma Reads.list {read : Nat → Json → Option α} {write : α → Json} {values : List α}
    (h : ∀ value ∈ values, Reads bound read (write value) value) :
    Reads bound (fun room => list? room read) (array (values.map write)) values := by
  intro room hroom hdepth
  obtain ⟨inner, rfl, hitems⟩ := depth_array_le_iff.mp hdepth
  have hread : ∀ value ∈ values, read inner (write value) = some value := by
    intro value hvalue
    exact h value hvalue inner (by omega) (hitems _ (List.mem_map_of_mem hvalue))
  have hvalues : (values.map write).mapM (read inner) = some values := by
    have hmap := mapM_of_forall_mem (f := read inner ∘ write) (g := id) hread
    rwa [List.map_id, ← List.mapM_map] at hmap
  simp only [list?, enter, Option.bind_eq_bind, Option.bind_some, hvalues]

@[simp]
lemma Slot.required_given (read : Json → Option α) (json : Json) :
    (given json).required read = read json := rfl

@[simp]
lemma Slot.withDefault_given (read : Json → Option α) (default : α) (json : Json) :
    (given json).withDefault read default = read json := rfl

@[simp]
lemma Slot.optional_given (read : Json → Option α) (json : Json) :
    (given json).optional read = json.nullable read := rfl

/-! ### Texts, numbers and tags -/

@[simp]
lemma text?_text (s : String) : (text s).text? = some s := rfl

@[simp]
lemma bool?_bool (b : Bool) : (bool b).bool? = some b := rfl

@[simp]
lemma nullable_ofText? (s : Option String) : nullable text? (ofText? s) = some s := by
  cases s <;> rfl

@[simp]
lemma tag?_text (room : Nat) (tag : String) : (text tag).tag? room = some tag := rfl

@[simp]
lemma unsigned?_integer (n : UInt64) : (integer n.toNat).unsigned? = some n := by
  have hlt : n.toNat < UInt64.size := n.toNat_lt
  simp [integer, unsigned?, hlt]

@[simp]
lemma signed?_integer (n : Int64) : (integer n.toInt).signed? = some n := by
  have hmin : Int64.minValue.toInt ≤ n.toInt := n.minValue_le_toInt
  have hmax : n.toInt ≤ Int64.maxValue.toInt := n.toInt_le
  simp only [integer, signed?, hmin, hmax, and_self, if_true, Int64.ofInt_toInt]

/-! ### Definite documents -/

@[simp]
lemma isDefinite_null : null.isDefinite = true := rfl

@[simp]
lemma isDefinite_bool (b : Bool) : (bool b).isDefinite = true := rfl

@[simp]
lemma isDefinite_text (s : String) : (text s).isDefinite = true := rfl

@[simp]
lemma isDefinite_integer (n : Int) : (integer n).isDefinite = true := rfl

@[simp]
lemma isDefinite_ofText? (s : Option String) : (ofText? s).isDefinite = true := by
  cases s <;> rfl

@[simp]
lemma isDefinite_array (items : List Json) : (array items).isDefinite = items.all isDefinite := by
  rw [isDefinite]
  induction items with
  | nil => rfl
  | cons item rest ih => rw [areDefinite, ih, List.all_cons]

@[simp]
lemma isDefinite_record (fields : List (String × Json)) :
    (record fields).isDefinite = fields.all fun field => field.2.isDefinite := by
  rw [record, isDefinite]
  induction fields with
  | nil => rfl
  | cons field rest ih =>
    rw [List.map_cons, membersDefinite, ih, List.all_cons, Option.isSome_some, Bool.true_and]

end Json

open Json (Reads)

@[simp]
lemma UnaryOp.ofTag?_tag (operator : UnaryOp) : UnaryOp.ofTag? operator.tag = some operator := by
  cases operator <;> rfl

@[simp]
lemma BinaryOp.ofTag?_tag (operator : BinaryOp) : BinaryOp.ofTag? operator.tag = some operator := by
  cases operator <;> rfl

@[simp]
lemma CastTarget.ofTag?_tag (target : CastTarget) : CastTarget.ofTag? target.tag = some target := by
  cases target <;> rfl

lemma depth_tagged_le_iff {tag : String} {content : Json} {room : Nat} :
    (tagged tag content).depth ≤ room ↔ ∃ inner, room = inner + 1 ∧ content.depth ≤ inner := by
  simp [tagged, Json.depth_record_le_iff]

@[simp]
lemma variant?_tagged (inner : Nat) (tag : String) (content : Json) :
    (tagged tag content).variant? (inner + 1) = some (tag, some (inner, content)) := rfl

lemma Literal.isDefinite_toJson (value : Literal) : value.toJson.isDefinite = true := by
  cases value with
  | float x =>
    simp only [Literal.toJson, tagged, Json.isDefinite_record, List.all_cons, List.all_nil]
    split <;> rfl
  | _ => rfl

/-- A document of a node is definite, so that it can stand for a computed name. -/
lemma Node.isDefinite_toJson (node : Node) : node.toJson.isDefinite = true := by
  -- One statement for each of the mutually recursive writers.
  apply Node.toJson.induct
    (fun node => node.toJson.isDefinite = true) (fun kind => kind.toJson.isDefinite = true)
    (fun decl => decl.toJson.isDefinite = true)
    (fun parameters => (parametersToJson parameters).all Json.isDefinite = true)
    (fun parameter => parameter.toJson.isDefinite = true)
    (fun node? => (nodeToJson? node?).isDefinite = true)
    (fun items => (itemsToJson items).all Json.isDefinite = true)
    (fun item => item.toJson.isDefinite = true) (fun name => name.toJson.isDefinite = true)
    (fun decl => decl.toJson.isDefinite = true) (fun decl => decl.toJson.isDefinite = true)
    (fun decl => decl.toJson.isDefinite = true) (fun decl => decl.toJson.isDefinite = true)
    (fun decl => decl.toJson.isDefinite = true)
    (fun nodes => (nodesToJson nodes).all Json.isDefinite = true)
  all_goals intros
  all_goals simp_all [Node.toJson, Kind.toJson, tagged, Name.toJson, ClassDecl.toJson,
    FunctionDecl.toJson, MethodDecl.toJson, ClosureDecl.toJson, ParameterDecl.toJson,
    PropertyDecl.toJson, ConstDecl.toJson, ArrayItem.toJson, ClosureUse.toJson,
    Literal.isDefinite_toJson, nodesToJson, itemsToJson, parametersToJson, nodeToJson?]

lemma nodesToJson_eq_map (nodes : List Node) : nodesToJson nodes = nodes.map Node.toJson := by
  induction nodes with
  | nil => rfl
  | cons node rest ih => rw [nodesToJson, ih, List.map_cons]

lemma itemsToJson_eq_map (items : List ArrayItem) :
    itemsToJson items = items.map ArrayItem.toJson := by
  induction items with
  | nil => rfl
  | cons item rest ih => rw [itemsToJson, ih, List.map_cons]

lemma parametersToJson_eq_map (parameters : List ParameterDecl) :
    parametersToJson parameters = parameters.map ParameterDecl.toJson := by
  induction parameters with
  | nil => rfl
  | cons parameter rest ih => rw [parametersToJson, ih, List.map_cons]

/-! ### The nodes inside a node -/

/-- The parameters that a node of the given kind declares. -/
def Kind.parameters : Kind → List ParameterDecl
  | .functionDecl decl => decl.parameters
  | .methodDecl decl => decl.parameters
  | .closure decl => decl.parameters
  | _ => []

/-- The default values of parameters. -/
def ParameterDecl.defaults (parameters : List ParameterDecl) : List Node :=
  parameters.flatMap fun parameter => parameter.default.toList

/-- The nodes right inside a node of the given kind: the parts that are evaluated, and the default
values of parameters. -/
def Kind.components (kind : Kind) : List Node :=
  kind.children ++ ParameterDecl.defaults kind.parameters

/-- Every float literal in the tree is finite. -/
inductive Node.FloatsFinite : Node → Prop where
  | mk {node : Node} (literal : ∀ x, node.kind = .literal (.float x) → x.isFinite = true)
    (components : ∀ part ∈ node.kind.components, part.FloatsFinite) : node.FloatsFinite

/-! ### Reading from the documents of the parts -/

section Parts

variable (node : Nat → Json → Option Node) (bound : Nat) {room : Nat}

/-- The reader of nodes reads each of the parts. -/
def ReadsEach (parts : List Node) : Prop := ∀ part ∈ parts, Reads bound node part.toJson part

lemma readsEach_cons {part : Node} {rest : List Node} :
    ReadsEach node bound (part :: rest)
      ↔ Reads bound node part.toJson part ∧ ReadsEach node bound rest :=
  List.forall_mem_cons

lemma readsEach_append {first second : List Node} :
    ReadsEach node bound (first ++ second)
      ↔ ReadsEach node bound first ∧ ReadsEach node bound second :=
  List.forall_mem_append

lemma read_node {part : Node} (h : Reads bound node part.toJson part) (hroom : room ≤ bound)
    (hdepth : part.toJson.depth ≤ room) : node room part.toJson = some part :=
  h room hroom hdepth

lemma nullable_nodeToJson? {node? : Option Node} (h : ReadsEach node bound node?.toList)
    (hroom : room ≤ bound) (hdepth : (nodeToJson? node?).depth ≤ room) :
    Json.nullable (node room) (nodeToJson? node?) = some node? := by
  cases node? with
  | none => rfl
  | some part =>
    have hread := h part (List.mem_singleton_self part) room hroom hdepth
    rw [nodeToJson?, Json.nullable, hread]
    · rfl
    · obtain ⟨line, kind⟩ := part
      simp [Node.toJson, Json.record]

lemma list?_nodesToJson {nodes : List Node} (h : ReadsEach node bound nodes) (hroom : room ≤ bound)
    (hdepth : (Json.array (nodesToJson nodes)).depth ≤ room) :
    Json.list? room node (.array (nodesToJson nodes)) = some nodes := by
  rw [nodesToJson_eq_map] at hdepth ⊢
  exact Reads.list h room hroom hdepth

lemma Name.read_toJson {name : Name} (h : ReadsEach node bound name.computed?.toList)
    (hroom : room ≤ bound) (hdepth : name.toJson.depth ≤ room) :
    Name.read node room name.toJson = some name := by
  cases name with
  | literal text => rfl
  | computed part =>
    have hread := h part (List.mem_singleton_self part) room hroom hdepth
    have hdefinite := part.isDefinite_toJson
    rw [Name.toJson] at hdepth ⊢
    rw [Name.read]
    · simp [hdefinite, hdepth, hread]
    · obtain ⟨line, kind⟩ := part
      simp [Node.toJson, Json.record]

lemma ArrayItem.reads_toJson {item : ArrayItem} (h : ReadsEach node bound item.parts) :
    Reads bound (ArrayItem.read node) item.toJson item := by
  obtain ⟨key, value⟩ := item
  refine Reads.record rfl (by decide) fun inner hinner hfit => ?_
  simp only [List.forall_mem_cons] at hfit
  simp only [ArrayItem.parts, readsEach_append, readsEach_cons] at h
  simp [read_node node bound, nullable_nodeToJson? node bound, h, Nat.le_of_lt hinner, hfit]

lemma list?_itemsToJson {items : List ArrayItem}
    (h : ReadsEach node bound (items.flatMap ArrayItem.parts)) (hroom : room ≤ bound)
    (hdepth : (Json.array (itemsToJson items)).depth ≤ room) :
    Json.list? room (ArrayItem.read node) (.array (itemsToJson items)) = some items := by
  rw [itemsToJson_eq_map] at hdepth ⊢
  refine Reads.list (fun item hitem => ?_) room hroom hdepth
  exact ArrayItem.reads_toJson node bound fun part hpart =>
    h part (List.mem_flatMap.mpr ⟨item, hitem, hpart⟩)

lemma ParameterDecl.reads_toJson {decl : ParameterDecl}
    (h : ReadsEach node bound decl.default.toList) :
    Reads bound (ParameterDecl.read node) decl.toJson decl := by
  obtain ⟨name, annotation, byRef, variadic, default⟩ := decl
  refine Reads.record rfl (by decide) fun inner hinner hfit => ?_
  simp only [List.forall_mem_cons] at hfit
  simp [nullable_nodeToJson? node bound, h, Nat.le_of_lt hinner, hfit]

lemma ParameterDecl.readList_toJson {parameters : List ParameterDecl}
    (h : ReadsEach node bound (ParameterDecl.defaults parameters)) (hroom : room ≤ bound)
    (hdepth : (Json.array (parametersToJson parameters)).depth ≤ room) :
    ParameterDecl.readList node room (.array (parametersToJson parameters)) = some parameters := by
  rw [parametersToJson_eq_map] at hdepth ⊢
  refine Reads.list (fun parameter hparameter => ?_) room hroom hdepth
  exact ParameterDecl.reads_toJson node bound fun part hpart =>
    h part (List.mem_flatMap.mpr ⟨parameter, hparameter, hpart⟩)

lemma ClosureUse.reads_toJson (captured : ClosureUse) :
    Reads bound ClosureUse.read captured.toJson captured := by
  refine Reads.record rfl (by decide) fun inner hinner hfit => ?_
  simp

/-! ### Declarations and literals -/

lemma ClassDecl.reads_toJson {decl : ClassDecl} (h : Reads bound node decl.body.toJson decl.body) :
    Reads bound (ClassDecl.read node) decl.toJson decl := by
  obtain ⟨name, parent, isTrait, body⟩ := decl
  refine Reads.record rfl (by decide) fun inner hinner hfit => ?_
  simp only [List.forall_mem_cons] at hfit
  simp [read_node node bound, h, Nat.le_of_lt hinner, hfit]

lemma FunctionDecl.reads_toJson {decl : FunctionDecl}
    (hbody : Reads bound node decl.body.toJson decl.body)
    (hdefaults : ReadsEach node bound (ParameterDecl.defaults decl.parameters)) :
    Reads bound (FunctionDecl.read node) decl.toJson decl := by
  obtain ⟨name, parameters, returnType, body⟩ := decl
  refine Reads.record rfl (by decide) fun inner hinner hfit => ?_
  simp only [List.forall_mem_cons] at hfit
  simp [read_node node bound, ParameterDecl.readList_toJson node bound, hbody, hdefaults,
    Nat.le_of_lt hinner, hfit]

lemma MethodDecl.reads_toJson {decl : MethodDecl} (hbody : ReadsEach node bound decl.body.toList)
    (hdefaults : ReadsEach node bound (ParameterDecl.defaults decl.parameters)) :
    Reads bound (MethodDecl.read node) decl.toJson decl := by
  obtain ⟨name, parameters, returnType, isStatic, body⟩ := decl
  refine Reads.record rfl (by decide) fun inner hinner hfit => ?_
  simp only [List.forall_mem_cons] at hfit
  simp [nullable_nodeToJson? node bound, ParameterDecl.readList_toJson node bound, hbody, hdefaults,
    Nat.le_of_lt hinner, hfit]

lemma ClosureDecl.reads_toJson {decl : ClosureDecl}
    (hbody : Reads bound node decl.body.toJson decl.body)
    (hdefaults : ReadsEach node bound (ParameterDecl.defaults decl.parameters)) :
    Reads bound (ClosureDecl.read node) decl.toJson decl := by
  obtain ⟨parameters, uses, returnType, isStatic, body⟩ := decl
  refine Reads.record rfl (by decide) fun inner hinner hfit => ?_
  simp only [List.forall_mem_cons] at hfit
  have huses : Json.list? inner ClosureUse.read (.array (uses.map ClosureUse.toJson)) = some uses :=
    Reads.list (fun captured _ => captured.reads_toJson bound) inner (Nat.le_of_lt hinner) hfit.2.1
  simp [read_node node bound, ParameterDecl.readList_toJson node bound, huses, hbody, hdefaults,
    Nat.le_of_lt hinner, hfit]

lemma PropertyDecl.reads_toJson {decl : PropertyDecl}
    (h : ReadsEach node bound decl.default.toList) :
    Reads bound (PropertyDecl.read node) decl.toJson decl := by
  obtain ⟨name, annotation, isStatic, default⟩ := decl
  refine Reads.record rfl (by decide) fun inner hinner hfit => ?_
  simp only [List.forall_mem_cons] at hfit
  simp [nullable_nodeToJson? node bound, h, Nat.le_of_lt hinner, hfit]

lemma ConstDecl.reads_toJson {decl : ConstDecl} (h : Reads bound node decl.value.toJson decl.value) :
    Reads bound (ConstDecl.read node) decl.toJson decl := by
  obtain ⟨name, value⟩ := decl
  refine Reads.record rfl (by decide) fun inner hinner hfit => ?_
  simp only [List.forall_mem_cons] at hfit
  simp [read_node node bound, h, Nat.le_of_lt hinner, hfit]

lemma Literal.reads_toJson {value : Literal}
    (hfinite : ∀ x, value = .float x → x.isFinite = true) :
    Reads bound Literal.read value.toJson value := by
  intro room hroom hdepth
  cases value with
  | null => rfl
  | int n =>
    obtain ⟨inner, rfl, -⟩ := depth_tagged_le_iff.mp hdepth
    simp [Literal.toJson, Literal.read]
  | float x =>
    obtain ⟨inner, rfl, -⟩ := depth_tagged_le_iff.mp hdepth
    simp [Literal.toJson, Literal.read, hfinite x rfl, Json.float?]
  | string s =>
    obtain ⟨inner, rfl, -⟩ := depth_tagged_le_iff.mp hdepth
    simp [Literal.toJson, Literal.read]
  | bool b =>
    obtain ⟨inner, rfl, -⟩ := depth_tagged_le_iff.mp hdepth
    simp [Literal.toJson, Literal.read]

/-! ### Kinds and nodes -/

variable {node bound}

lemma Kind.reads_tagged {tag : String} {content : Json} {kind : Kind}
    (h : ∀ room ≤ bound, content.depth ≤ room → Kind.readTagged node room tag content = some kind) :
    Reads bound (Kind.read node) (tagged tag content) kind := by
  intro room hroom hdepth
  obtain ⟨inner, rfl, hcontent⟩ := depth_tagged_le_iff.mp hdepth
  have hread := h inner (by omega) hcontent
  simpa only [Kind.read, variant?_tagged] using hread

/-- A kind of node is read back if the nodes right inside it are. -/
lemma Kind.reads_toJson {kind : Kind} (hparts : ReadsEach node bound kind.components)
    (hfinite : ∀ x, kind = .literal (.float x) → x.isFinite = true) :
    Reads bound (Kind.read node) kind.toJson kind := by
  cases kind
  case breakLoop | continueLoop =>
    intro room hroom hdepth
    rfl
  all_goals
    rw [Kind.toJson]
    refine Kind.reads_tagged fun room hroom hdepth => ?_
    unfold Kind.readTagged
    simp only [components, children, parameters, readsEach_append, readsEach_cons] at hparts
  case statementList | ifChain | expressionList | listTarget =>
    simp [list?_nodesToJson node bound, hparts, hroom, hdepth]
  case array => simp [list?_itemsToJson node bound, hparts, hroom, hdepth]
  case echo | print | throwValue | unsetPlace =>
    simp [read_node node bound, hparts, hroom, hdepth]
  case returnValue => simp [nullable_nodeToJson? node bound, hparts, hroom, hdepth]
  case var => simp [Name.read_toJson node bound, hparts, hroom, hdepth]
  case identifier => simp
  case literal value =>
    have hliteral : ∀ x, value = .float x → x.isFinite = true := fun x hx => hfinite x (hx ▸ rfl)
    simp [value.reads_toJson bound hliteral room hroom hdepth]
  case classDecl decl => simp [decl.reads_toJson node bound hparts.1.1 room hroom hdepth]
  case functionDecl decl =>
    simp [decl.reads_toJson node bound hparts.1.1 hparts.2 room hroom hdepth]
  case methodDecl decl => simp [decl.reads_toJson node bound hparts.1 hparts.2 room hroom hdepth]
  case closure decl => simp [decl.reads_toJson node bound hparts.1.1 hparts.2 room hroom hdepth]
  case propertyDecl decl => simp [decl.reads_toJson node bound hparts.1 room hroom hdepth]
  case classConstDecl decl | constDecl decl =>
    simp [decl.reads_toJson node bound hparts.1.1 room hroom hdepth]
  -- The content of every other kind is a record.
  all_goals
    refine Reads.record rfl (by simp) (fun inner hinner hfit => ?_) room hroom hdepth
    simp only [List.forall_mem_cons] at hfit
    simp [read_node node bound, nullable_nodeToJson? node bound, list?_nodesToJson node bound,
      Name.read_toJson node bound, hparts, Nat.le_of_lt hinner, hfit]

end Parts

namespace Node

/-- A node takes up a level of the room, so that the nodes inside it need less fuel. -/
lemma FloatsFinite.reads_toJson {node : Node} (h : node.FloatsFinite) (fuel : Nat) :
    Reads fuel (readWithin fuel) node.toJson node := by
  induction h generalizing fuel with
  | @mk node hfinite _ ih =>
    obtain ⟨line, kind⟩ := node
    cases fuel with
    | zero =>
      intro room hroom hdepth
      obtain ⟨inner, rfl, -⟩ := Json.depth_record_le_iff.mp hdepth
      omega
    | succ fuel =>
      have hread := Kind.reads_toJson (fun part hpart => ih part hpart fuel) hfinite
      refine Reads.record rfl (by decide) fun inner hinner hfit => ?_
      simp only [List.forall_mem_cons] at hfit
      have hkind := hread inner (Nat.le_of_lt_succ hinner) hfit.2.1
      simp [hkind]

/-- A tree is read back from its document. -/
theorem ofJson_toJson {node : Node} (h : node.FloatsFinite) : ofJson node.toJson = some node :=
  h.reads_toJson node.toJson.depth node.toJson.depth (Nat.le_refl _) (Nat.le_refl _)

/-- A function with a float as the default value of its parameter, a computed variable, and a return
without a value. -/
theorem ofJson_toJson_functionDecl :
    let node : Node := ⟨1, .functionDecl ⟨"half",
      [⟨"x", some "float", false, false, some ⟨1, .literal (.float 0.5)⟩⟩], none,
      ⟨1, .statementList [⟨2, .var (.computed ⟨2, .var (.literal "x")⟩)⟩, ⟨3, .returnValue none⟩]⟩⟩⟩
    node.FloatsFinite ∧ ofJson node.toJson = some node := by
  intro node
  have hdefault : (Node.mk 1 (.literal (.float 0.5))).FloatsFinite :=
    .mk (by simp; decide) (List.forall_mem_nil _)
  have hname : (Node.mk 2 (.var (.literal "x"))).FloatsFinite :=
    .mk (by simp) (List.forall_mem_nil _)
  have hvar : (Node.mk 2 (.var (.computed ⟨2, .var (.literal "x")⟩))).FloatsFinite :=
    .mk (by simp) (List.forall_mem_singleton.mpr hname)
  have hreturn : (Node.mk 3 (.returnValue none)).FloatsFinite :=
    .mk (by simp) (List.forall_mem_nil _)
  have hbody : (Node.mk 1 (.statementList [⟨2, .var (.computed ⟨2, .var (.literal "x")⟩)⟩,
      ⟨3, .returnValue none⟩])).FloatsFinite :=
    .mk (by simp) (List.forall_mem_cons.mpr ⟨hvar, List.forall_mem_singleton.mpr hreturn⟩)
  have hfinite : node.FloatsFinite :=
    .mk (by simp [node]) (List.forall_mem_cons.mpr ⟨hbody, List.forall_mem_singleton.mpr hdefault⟩)
  exact ⟨hfinite, ofJson_toJson hfinite⟩

end Node

end PhpCheck
