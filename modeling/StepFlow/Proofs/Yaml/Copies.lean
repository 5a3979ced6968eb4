import StepFlow.Flow.Print
import StepFlow.Proofs.Outcome
import StepFlow.Proofs.Table
import StepFlow.Proofs.Yaml.Numbers
import StepFlow.Text.Blank
import StepFlow.Yaml.Decode

/-!
JSON values read as YAML. The text of a JSON value denotes a tree of nodes: strings and keys are scalars
between quotes, numbers and truth values are plain scalars, and there are no tags and no aliases. For
each way of reading a node it is said here which value it makes of such a tree. What can go wrong is
only that collections are nested deeper than a reader may enter.
-/

namespace StepFlow

/-- No more than `depth` collections are inside each other in the value. -/
def Json.fits : (depth : Nat) → Json → Bool
  | 0, .arr _ | 0, .obj _ => false
  | depth + 1, .arr items => items.all (fits depth)
  | depth + 1, .obj members => members.all fun m => fits depth m.2
  | _, _ => true

namespace Yaml

mutual

/-- The node that the text of a JSON value denotes. -/
def Node.ofJson : Json → Node
  | .null => .scalar none "null" .plain
  | .bool b => .scalar none (if b then "true" else "false") .plain
  | .num n => .scalar none (toString n) .plain
  | .str s => .scalar none s .double
  | .arr items => .seq none (Node.ofItems items)
  | .obj members => .map none (Node.ofMembers members)

/-- The nodes of the items of an array. -/
def Node.ofItems : List Json → List Node
  | [] => []
  | v :: rest => Node.ofJson v :: Node.ofItems rest

/-- The entries of the members of an object. -/
def Node.ofMembers : List (String × Json) → List (Node × Node)
  | [] => []
  | (k, v) :: rest => (.scalar none k .double, Node.ofJson v) :: Node.ofMembers rest

end

lemma Node.ofItems_eq_map (items : List Json) : ofItems items = items.map ofJson := by
  induction items with
  | nil => rfl
  | cons v rest ih => rw [ofItems, ih, List.map_cons]

lemma Node.ofMembers_eq_map (members : List (String × Json)) :
    ofMembers members = members.map fun m => (.scalar none m.1 .double, ofJson m.2) := by
  induction members with
  | nil => rfl
  | cons m rest ih => rw [ofMembers, ih, List.map_cons]

namespace Decode

/-! ### Nested too deep, or read -/

section Within

variable {α β : Type}

/-- A value, if it is not nested too deep. -/
def within (fits : Bool) (v : α) : Except Fault α := if fits then .ok v else .error .tooDeep

lemma within_map (fits : Bool) (v : α) (g : α → β) :
    (within fits v).map g = within fits (g v) := by
  cases fits <;> rfl

lemma within_bind (fits : Bool) (v : α) (g : α → β) :
    (within fits v >>= fun v => .ok (g v)) = within fits (g v) := by
  cases fits <;> rfl

/-- What is read item by item. -/
lemma mapM_within {γ : Type} {node : γ → β} {read : β → Except Fault α} {fits : γ → Bool}
    {value : γ → α} {l : List γ} (h : ∀ x ∈ l, read (node x) = within (fits x) (value x)) :
    (l.map node).mapM read = within (l.all fits) (l.map value) := by
  induction l with
  | nil => rfl
  | cons x l ih =>
    rw [List.forall_mem_cons] at h
    rw [List.map_cons, List.mapM_cons, h.1, ih h.2, List.all_cons]
    cases fits x with
    | false => rfl
    | true => cases l.all fits <;> rfl

end Within

/-- A reader makes `v` of the tree of a JSON value, unless it is nested too deep. -/
def Copies {α : Type} (depth : Nat) (read : Node → Except Fault α) (j : Json) (v : α) : Prop :=
  read (.ofJson j) = within (j.fits depth) v

section Copies

variable {α : Type} {d : Document} {depth : Nat} {read : Node → Except Fault α} {j : Json} {v : α}

/-! ### Scalars -/

lemma fits_str (depth : Nat) (s : String) : (Json.str s).fits depth = true := by
  cases depth <;> rfl

lemma copies_text (s : String) : Copies depth (text d) (.str s) s := by
  rw [Copies, fits_str]
  rfl

lemma copies_flag (b : Bool) : Copies depth (flag d) (.bool b) b := by
  cases depth <;> cases b <;> rfl

lemma below_nat {bound n : Nat} (h : n < bound) :
    below bound d (.ofJson (Json.nat n)) = .ok n := by
  rw [below]
  change ((Except.ok (toString n) : Except Fault String) >>= _) = _
  simp only [bind, Except.bind, unsigned?_toString, if_pos h]
  rfl

lemma copies_word32 (n : UInt32) : Copies depth (word32 d) (Json.nat n.toNat) n := by
  have hfits : (Json.nat n.toNat).fits depth = true := by cases depth <;> rfl
  rw [Copies, hfits, word32, below_nat n.toNat_lt]
  exact congrArg _ n.ofNat_toNat

lemma copies_word64 (n : UInt64) : Copies depth (word64 d) (Json.nat n.toNat) n := by
  have hfits : (Json.nat n.toNat).fits depth = true := by cases depth <;> rfl
  rw [Copies, hfits, word64, below_nat n.toNat_lt]
  exact congrArg _ n.ofNat_toNat

/-- Every value but null counts as one that is there. -/
lemma Copies.optional (h : Copies depth read j v) (hj : j ≠ .null) :
    Copies depth (optional read d) j (some v) := by
  have hthere : Decode.optional read d (.ofJson j) = (read (.ofJson j)).map some := by
    cases j with
    | null => exact absurd rfl hj
    | bool b => cases b <;> rfl
    | num n => exact if_neg (by rw [toString_ne_null]; exact Bool.false_ne_true)
    | str s => rfl
    | arr items => rfl
    | obj members => rfl
  rw [Copies, hthere, h, within_map]

/-! ### Collections -/

lemma copies_list {read : Nat → Node → Except Fault α} {f : α → Json} {items : List α}
    (h : ∀ k, ∀ v ∈ items, Copies k (read k) (f v) v) :
    Copies depth (list read d depth) (.arr (items.map f)) items := by
  cases depth with
  | zero => rfl
  | succ k =>
    show (Node.ofItems (items.map f)).mapM (read k) = _
    rw [Node.ofItems_eq_map, List.map_map, Json.fits, List.all_map]
    refine (mapM_within (h k)).trans ?_
    rw [List.map_id']
    rfl

lemma copies_texts (items : List String) :
    Copies depth (texts d depth) (Json.strs items) items :=
  copies_list fun _ s _ => copies_text s

lemma copies_table {β : Type} {f : β → Json} (value : β → α) {t : Table β}
    (hnames : (Table.names t).Nodup)
    (h : ∀ k, depth = k + 1 → ∀ p ∈ t, Copies k read (f p.2) (value p.2)) :
    Copies depth (table read d depth) (.obj (t.map fun p => (p.1, f p.2)))
      (t.map fun p => (p.1, value p.2)) := by
  cases depth with
  | zero => rfl
  | succ k =>
    have hpair : ∀ p ∈ t, (do
        let name ← text d (.scalar none p.1 .double)
        let v ← read (.ofJson (f p.2))
        return (name, v)) = within ((f p.2).fits k) (p.1, value p.2) := by
      intro p hp
      rw [h k rfl p hp]
      exact within_bind _ _ fun v => (p.1, v)
    have hnames' : (Table.names (t.map fun p => (p.1, value p.2))).Nodup := by
      rwa [Table.names, List.map_map]
    rw [Copies, table]
    show ((Node.ofMembers _).mapM _ >>= fun pairs => Except.ok (Table.ofPairs pairs)) = _
    rw [Node.ofMembers_eq_map, List.map_map, Json.fits, List.all_map]
    refine (congrArg (· >>= _) (mapM_within hpair)).trans ?_
    rw [within_bind, Table.ofPairs_of_nodup hnames']
    rfl

lemma copies_value (s : String) : Copies depth (value d depth) (.str s) (.text s) := by
  cases depth <;> rfl

/-- Texts by name are read untyped, and written as texts again. -/
lemma copies_namedTexts {t : Table String} (hnames : (Table.names t).Nodup) :
    Copies depth (namedTexts d depth) (Json.table t) t := by
  have hvalues : Copies depth (Decode.optional (table (value d (depth - 1)) d depth) d)
      (Json.table t) (some (t.map fun p => (p.1, .text p.2))) := by
    refine Copies.optional (copies_table _ hnames ?_) Json.noConfusion
    rintro k rfl p -
    exact copies_value p.2
  have htexts : ∀ f : String × Value → Except Fault (String × String),
      (∀ p, f (p.1, .text p.2) = .ok p) → (t.map fun p => (p.1, Value.text p.2)).mapM f = .ok t := by
    intro f hf
    rw [mapM_eq_ok_iff, List.forall₂_map_left_iff, List.forall₂_same]
    exact fun p _ => hf p
  rw [Copies, namedTexts, hvalues]
  cases (Json.table t).fits depth with
  | false => rfl
  | true => exact htexts _ fun _ => rfl

end Copies

/-! ### Records -/

section Records

open Json (field? listField tableField)

variable {σ : Type} {d : Document} {depth : Nat} {fields : List (RecordField σ)}
  {names : List String} {members members' : List (String × Json)} {r r₁ r₂ : σ}

/-- The field of a record that a key means. -/
def fieldOf? (fields : List (RecordField σ)) (key : String) : Option (RecordField σ) :=
  fields.find? fun f => f.name = key || key ∈ f.aliases

/-- Puts the value of a member into a record. -/
def put (fields : List (RecordField σ)) (r : σ) (m : String × Json) : Except Fault σ :=
  match fieldOf? fields m.1 with
  | none => .error (.unknownField m.1)
  | some f => f.set (.ofJson m.2) r

/-- Members whose keys are among `names`, in this order, make the second record of the first, unless
they are nested too deep. -/
structure Fills (depth : Nat) (fields : List (RecordField σ)) (names : List String) (r : σ)
    (members : List (String × Json)) (r' : σ) : Prop where
  keys : (members.map (·.1)).Sublist names
  puts : members.foldlM (put fields) r = within (members.all fun m => m.2.fits depth) r'

lemma fills_nil : Fills depth fields names r [] r := ⟨List.nil_sublist _, rfl⟩

lemma Fills.cons {name : String} (h : Fills depth fields [name] r members r₁)
    (h' : Fills depth fields names r₁ members' r₂) :
    Fills depth fields (name :: names) r (members ++ members') r₂ where
  keys := by
    rw [List.map_append]
    exact h.keys.append h'.keys
  puts := by
    rw [List.foldlM_append, h.puts, List.all_append]
    cases members.all fun m => m.2.fits depth with
    | false => rfl
    | true => exact h'.puts

/-- The record with a value put in. It has a name of its own, so that a record into which many values
were put stays small. -/
def setting {α : Type} (set : α → σ → σ) (v : α) (r : σ) : σ := set v r

/-- The value of a name is read by `read` and put in by `set`. -/
def Sets {α : Type} (fields : List (RecordField σ)) (name : String) (read : Node → Except Fault α)
    (set : α → σ → σ) : Prop :=
  ∃ f, fieldOf? fields name = some f ∧ f.name = name ∧
    ∀ n r, f.set n r = do return set (← read n) r

lemma sets_of_eq {α : Type} {name : String} {aliases : List String}
    {read : Node → Except Fault α} {set : α → σ → σ}
    (h : fieldOf? fields name =
      some { name, aliases, set := fun n r => return set (← read n) r }) :
    Sets fields name read set :=
  ⟨_, h, rfl, fun _ _ => rfl⟩

section Member

variable {α : Type} {name : String} {read : Node → Except Fault α} {set : α → σ → σ}

/-- A member that is there. -/
lemma fills_member {j : Json} {v : α} (hsets : Sets fields name read set)
    (h : Copies depth read j v) : Fills depth fields [name] r [(name, j)] (setting set v r) where
  keys := List.Sublist.refl _
  puts := by
    obtain ⟨f, hf, -, hset⟩ := hsets
    have hput : put fields r (name, j) = (do return set (← read (.ofJson j)) r) := by
      rw [put, hf]
      exact hset _ r
    rw [List.foldlM_cons, hput, h]
    cases hfits : j.fits depth <;> simp [hfits, within, setting]

/-- A member that is left out when it is unset. -/
lemma fills_field? {set : Option α → σ → σ} {f : α → Json} {v : Option α}
    (hsets : Sets fields name (optional read d) set) (h : ∀ x ∈ v, Copies depth read (f x) x)
    (hf : ∀ x, f x ≠ .null) (hunset : setting set none r = r) :
    Fills depth fields [name] r (field? name f v) (setting set v r) := by
  cases v with
  | none =>
    rw [hunset]
    exact fills_nil
  | some x => exact fills_member hsets ((h x rfl).optional (hf x))

/-- A member that is left out when its list is empty. -/
lemma fills_listField {read : Node → Except Fault (List α)} {set : List α → σ → σ}
    {f : α → Json} {items : List α} (hsets : Sets fields name read set)
    (h : Copies depth read (.arr (items.map f)) items) (hunset : setting set [] r = r) :
    Fills depth fields [name] r (listField name f items) (setting set items r) := by
  cases items with
  | nil =>
    rw [hunset]
    exact fills_nil
  | cons x items => exact fills_member hsets h

/-- A member that is left out when its table is empty. -/
lemma fills_tableField {set : Table String → σ → σ} {t : Table String}
    (hsets : Sets fields name (namedTexts d depth) set) (hnames : (Table.names t).Nodup)
    (hunset : setting set [] r = r) :
    Fills depth fields [name] r (tableField name t) (setting set t r) := by
  cases t with
  | nil =>
    rw [hunset]
    exact fills_nil
  | cons p t => exact fills_member hsets (copies_namedTexts hnames)

lemma fills_text {set : Option String → σ → σ} {v : Option String}
    (hsets : Sets fields name (optional (text d) d) set) (hunset : setting set none r = r) :
    Fills depth fields [name] r (field? name .str v) (setting set v r) :=
  fills_field? hsets (fun s _ => copies_text s) (fun _ => Json.noConfusion) hunset

lemma fills_texts {set : Option (List String) → σ → σ} {v : Option (List String)}
    (hsets : Sets fields name (optional (texts d depth) d) set) (hunset : setting set none r = r) :
    Fills depth fields [name] r (field? name Json.strs v) (setting set v r) :=
  fills_field? hsets (fun items _ => copies_texts items) (fun _ => Json.noConfusion) hunset

lemma fills_flag {set : Option Bool → σ → σ} {v : Option Bool}
    (hsets : Sets fields name (optional (flag d) d) set) (hunset : setting set none r = r) :
    Fills depth fields [name] r (field? name .bool v) (setting set v r) :=
  fills_field? hsets (fun b _ => copies_flag b) (fun _ => Json.noConfusion) hunset

lemma fills_textList {set : List String → σ → σ} {items : List String}
    (hsets : Sets fields name (texts d depth) set) (hunset : setting set [] r = r) :
    Fills depth fields [name] r (listField name .str items) (setting set items r) :=
  fills_listField hsets (copies_texts items) hunset

end Member

/-- No field is set twice by members whose keys are names of different fields. -/
lemma fill_eq_foldlM {seen : List String} (hnodup : (members.map (·.1)).Nodup)
    (hseen : ∀ m ∈ members, m.1 ∉ seen)
    (hown : ∀ m ∈ members, (fieldOf? fields m.1).map (·.name) = some m.1) :
    fill d fields seen r (Node.ofMembers members) = members.foldlM (put fields) r := by
  induction members generalizing seen r with
  | nil => rfl
  | cons m members ih =>
    rw [List.map_cons, List.nodup_cons] at hnodup
    rw [List.forall_mem_cons] at hseen hown
    obtain ⟨f, hf, hname⟩ := Option.map_eq_some_iff.1 hown.1
    have hfill : fill d fields seen r (Node.ofMembers (m :: members)) = (do
        let r' ← put fields r m
        fill d fields (f.name :: seen) r' (Node.ofMembers members)) := by
      have hnew : f.name ∉ seen := hname ▸ hseen.1
      have hfound : (fields.find? fun f => f.name = m.1 || m.1 ∈ f.aliases) = some f := hf
      obtain ⟨key, v⟩ := m
      rw [put, hf, Node.ofMembers, fill]
      show (match fields.find? fun f => f.name = key || key ∈ f.aliases with
        | none => _
        | some f => _) = _
      rw [hfound]
      exact if_neg hnew
    rw [hfill, List.foldlM_cons]
    refine congrArg _ (funext fun r' => ih hnodup.2 ?_ hown.2)
    intro m' hm'
    rw [hname, List.mem_cons, not_or]
    refine ⟨?_, hseen.2 m' hm'⟩
    rintro heq
    exact hnodup.1 (heq ▸ List.mem_map_of_mem hm')

/-- **A record** is read from its members. -/
theorem copies_record {unset filled : σ} (names : List String)
    (h : Fills (depth - 1) fields names unset members filled) (hnodup : names.Nodup)
    (hown : names.map (fun n => (fieldOf? fields n).map (·.name)) = names.map some)
    (hfilled : filled = r) : Copies depth (record d fields unset depth) (.obj members) r := by
  subst hfilled
  cases depth with
  | zero => rfl
  | succ k =>
    show fill d fields [] unset (Node.ofMembers members) = _
    rw [fill_eq_foldlM (hnodup.sublist h.keys) (fun _ _ => List.not_mem_nil), h.puts]
    · rfl
    · intro m hm
      exact List.map_inj_left.1 hown m.1 (h.keys.subset (List.mem_map_of_mem hm))

end Records

end Decode

/-! ### Documents -/

/-- Readers are handed the tree that the text of a JSON value denotes: the text is parsed as that tree,
and the tree is not refused because its collections are nested too deep. -/
structure HandsOver (j : Json) : Prop where
  tree : Document.ofText j.compact = { root := .ofJson j, ending := .clean }
  nesting : j.fits maxNesting = true

lemma Decode.only_compact {α : Type} {read : Document → Nat → Node → Except Fault α} {j : Json}
    {v : α} (h : HandsOver j) (hread : ∀ d, Copies maxNesting (read d maxNesting) j v) :
    only read j.compact = .ok v := by
  rw [only, h.tree]
  refine (congrArg (· >>= _) (hread _)).trans ?_
  rw [h.nesting]
  rfl

end Yaml

lemma Json.compact_obj_not_blank (members : List (String × Json)) :
    Text.isBlankText (Json.obj members).compact = false := by
  rw [Json.compact, Text.isBlankText, String.toList_append, String.toList_append]
  rfl

end StepFlow
