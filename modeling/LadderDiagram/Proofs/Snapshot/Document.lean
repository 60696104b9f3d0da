import LadderDiagram.Proofs.Decimal.Printed

/-!
# Documents of what was written

A written document, with any white space between its lexemes, is read as the tree of the document
(`ofText_spells`): lexeme by lexeme the state of the reader goes from where a value may begin to
where it is complete (`runs_value`).
-/

namespace LadderDiagram.Json

namespace Value

mutual

def tree : Value → Tree
  | null => .scalar .null
  | boolean b => .scalar (.boolean b)
  | natural n => .scalar (.number (.ofNat n))
  | real x => (Document.ofText (writeReal x)).root
  | text s => .scalar (.text (.ofText s))
  | list items => .list (itemTrees items) .closed
  | object members => .object (memberTrees members) .closed

def itemTrees : List Value → List Tree
  | [] => []
  | v :: rest => tree v :: itemTrees rest

def memberTrees : List (String × Value) → List (Quoted × Tree)
  | [] => []
  | (key, v) :: rest => (.ofText key, tree v) :: memberTrees rest

end

def EachReal (p : Float → Prop) (v : Value) : Prop := ∀ x ∈ v.reals, p x

theorem mem_itemReals {items : List Value} {x : Float} :
    x ∈ itemReals items ↔ ∃ v ∈ items, x ∈ v.reals := by
  induction items with
  | nil => simp [itemReals]
  | cons v rest ih => simp [itemReals, ih]

theorem mem_memberReals {members : List (String × Value)} {x : Float} :
    x ∈ memberReals members ↔ ∃ m ∈ members, x ∈ m.2.reals := by
  induction members with
  | nil => simp [memberReals]
  | cons m rest ih => simp [memberReals, ih]

theorem eachReal_list {p : Float → Prop} {items : List Value} :
    (list items).EachReal p ↔ ∀ v ∈ items, v.EachReal p := by
  simp only [EachReal, reals, mem_itemReals]
  exact ⟨fun h v hv x hx => h x ⟨v, hv, hx⟩, fun h x ⟨v, hv, hx⟩ => h v hv x hx⟩

theorem eachReal_object {p : Float → Prop} {members : List (String × Value)} :
    (object members).EachReal p ↔ ∀ m ∈ members, m.2.EachReal p := by
  simp only [EachReal, reals, mem_memberReals]
  exact ⟨fun h m hm x hx => h x ⟨m, hm, hx⟩, fun h x ⟨m, hm, hx⟩ => h m hm x hx⟩

end Value

/-- What stands for a number is one scalar. -/
theorem exists_tree_real (x : Float) :
    ∃ s : Scalar, (Value.real x).tree = .scalar s ∧ ∀ rest, Stops rest →
      tokens ((writeReal x).toList ++ rest) = .scalar s :: tokens rest := by
  obtain ⟨s, htokens⟩ := exists_scalar x
  have hall := htokens [] stops_nil
  rw [List.append_nil] at hall
  refine ⟨s, ?_, htokens⟩
  rw [Value.tree, Document.ofText, hall, ofTokens_scalar]

/-- A number that is read back was written as a numeral that stands for it. -/
theorem ReadsBack.exists_tree {x : Float} (h : ReadsBack x) :
    ∃ n : Numeral, (Value.real x).tree = .scalar (.number n) ∧
      n.value.map Number.toFloat = .ok x := by
  obtain ⟨s, htree, -⟩ := exists_tree_real x
  obtain ⟨y, hread, hy⟩ := bind_eq_ok.1 h
  have hread : Reader.real .top (Value.real x).tree = .ok y := hread
  have hxy : y = x := by
    split at hy
    · cases hy
    · exact Except.ok.inj hy
  rw [htree] at hread
  obtain ⟨n, rfl, hn⟩ := real_eq_ok hread
  exact ⟨n, htree, hxy ▸ hn⟩

/-! ## Runs over lexemes -/

/-- The first of the lexemes, if there is one, does not go on with a numeral before it. -/
def Parted (ls : List String) : Prop := ∀ l ∈ ls.head?, l ≠ "" ∧ Stops l.toList

theorem Stops.of_append {s t : List Char} (hs : s ≠ []) (h : Stops s) : Stops (s ++ t) := by
  cases s with
  | nil => exact (hs rfl).elim
  | cons c s => exact h

theorem stops_of_space {c : Char} (h : isSpace c) (s : List Char) : Stops (c :: s) := by
  rintro d hd
  obtain rfl : c = d := by simpa using hd
  simp only [isSpace, Bool.or_eq_true, beq_iff_eq] at h
  rcases h with ((rfl | rfl) | rfl) | rfl <;> decide

theorem Spaced.stops {ls : List String} {cs : List Char} (h : Spaced ls cs) (hp : Parted ls) :
    Stops cs := by
  cases h with
  | done hw =>
    cases cs with
    | nil => exact nofun
    | cons c w => exact stops_of_space (hw c List.mem_cons_self) w
  | @next w _ l _ hw _ =>
    cases w with
    | nil =>
      obtain ⟨hne, hstop⟩ := hp l rfl
      exact hstop.of_append (s := l.toList) (by simpa using hne)
    | cons c w => exact stops_of_space (hw c List.mem_cons_self) _

/-- Over the lexemes, and before others that part them from what follows, the reader goes from
one state to the other. -/
def Runs (ls : List String) (a b : State) : Prop :=
  ∀ ls' cs, Spaced (ls ++ ls') cs → Parted ls' →
    ∃ cs', Spaced ls' cs' ∧ (tokens cs).foldl State.step a = (tokens cs').foldl State.step b

theorem Runs.nil (a : State) : Runs [] a a := fun _ cs h _ => ⟨cs, h, rfl⟩

/-- A lexeme that is read as one token whatever follows it. -/
theorem Runs.cons {l : String} {ls : List String} {t : Token} {a b : State}
    (hl : ∀ rest, tokens (l.toList ++ rest) = t :: tokens rest) (h : Runs ls (a.step t) b) :
    Runs (l :: ls) a b := by
  intro ls' cs hcs hp
  cases hcs with
  | next hw hs =>
    obtain ⟨cs', hcs', he⟩ := h ls' _ hs hp
    refine ⟨cs', hcs', ?_⟩
    rw [tokens_append_of_spaces hw, hl]
    exact he

/-- A lexeme that is read as one token where a numeral may end. -/
theorem Runs.single {l : String} {t : Token} {a : State}
    (hl : ∀ rest, Stops rest → tokens (l.toList ++ rest) = t :: tokens rest) :
    Runs [l] a (a.step t) := by
  intro ls' cs hcs hp
  cases hcs with
  | next hw hs =>
    refine ⟨_, hs, ?_⟩
    rw [tokens_append_of_spaces hw, hl _ (hs.stops hp)]
    rfl

theorem Runs.append {l : String} {ls ls' : List String} {a b c : State} (h : Runs ls a b)
    (hl : Parted [l]) (h' : Runs (l :: ls') b c) : Runs (ls ++ l :: ls') a c := by
  intro ls'' cs hcs hp
  rw [List.append_assoc] at hcs
  obtain ⟨cs', hcs', he⟩ := h _ cs hcs hl
  obtain ⟨cs'', hcs'', he'⟩ := h' ls'' cs' hcs' hp
  exact ⟨cs'', hcs'', he.trans he'⟩

/-! ## Punctuation -/

theorem tokens_comma (rest : List Char) : tokens (",".toList ++ rest) = .comma :: tokens rest :=
  tokens_cons rfl rest

theorem tokens_colon (rest : List Char) : tokens (":".toList ++ rest) = .colon :: tokens rest :=
  tokens_cons rfl rest

theorem tokens_listOpen (rest : List Char) :
    tokens ("[".toList ++ rest) = .listOpen :: tokens rest := tokens_cons rfl rest

theorem tokens_listClose (rest : List Char) :
    tokens ("]".toList ++ rest) = .listClose :: tokens rest := tokens_cons rfl rest

theorem tokens_objectOpen (rest : List Char) :
    tokens ("\x7b".toList ++ rest) = .objectOpen :: tokens rest := tokens_cons rfl rest

theorem tokens_objectClose (rest : List Char) :
    tokens ("\x7d".toList ++ rest) = .objectClose :: tokens rest := tokens_cons rfl rest

theorem parted_comma : Parted [","] := by simp [Parted, Stops]

theorem parted_listClose : Parted ["]"] := by simp [Parted, Stops]

theorem parted_objectClose : Parted ["\x7d"] := by simp [Parted, Stops]

/-! ## Values -/

/-- In the state a value may begin inside the open containers `up`. -/
def BeginsValue (a : State) (up : List Frame) : Prop :=
  ∀ t, t ≠ .listClose → a.step t = .startValue up t

theorem beginsValue_value (up : List Frame) : BeginsValue (.value up) up := fun _ _ => rfl

theorem beginsValue_listStart (up : List Frame) :
    BeginsValue (.listStart up) (.list [] :: up) := by
  rintro (_ | _) h <;> first | rfl | exact (h rfl).elim

theorem beginsValue_listNext (items : List Tree) (up : List Frame) :
    BeginsValue (.listNext items up) (.list items :: up) := by
  rintro (_ | _) h <;> first | rfl | exact (h rfl).elim

/-- In the state a member may begin in an object that has the given ones. -/
def BeginsMember (a : State) (members : List (Quoted × Tree)) (up : List Frame) : Prop :=
  ∀ t, t ≠ .objectClose → a.step t = .startKey members up t

theorem beginsMember_objectStart (up : List Frame) : BeginsMember (.objectStart up) [] up := by
  rintro (_ | _) h <;> first | rfl | exact (h rfl).elim

theorem beginsMember_objectNext (members : List (Quoted × Tree)) (up : List Frame) :
    BeginsMember (.objectNext members up) members up := by
  rintro (_ | _) h <;> first | rfl | exact (h rfl).elim

theorem runs_scalar {l : String} {s : Scalar} {a : State} {up : List Frame}
    (ha : BeginsValue a up)
    (hl : ∀ rest, Stops rest → tokens (l.toList ++ rest) = .scalar s :: tokens rest) :
    Runs [l] a (.after (.scalar s) up) := by
  have h := Runs.single (a := a) hl
  rwa [ha (.scalar s) nofun] at h

theorem runs_listClose (v : Tree) (before : List Tree) (up : List Frame) :
    Runs ["]"] (.after v (.list before :: up))
      (.after (.list (before.reverse ++ [v]) .closed) up) := by
  rw [← List.reverse_cons]
  exact Runs.cons tokens_listClose (.nil _)

theorem runs_objectClose (key : Quoted) (v : Tree) (before : List (Quoted × Tree))
    (up : List Frame) :
    Runs ["\x7d"] (.after v (.object before key :: up))
      (.after (.object (before.reverse ++ [(key, v)]) .closed) up) := by
  rw [← List.reverse_cons]
  exact Runs.cons tokens_objectClose (.nil _)

mutual

/-- Over a written value the reader goes from where a value may begin to where it is complete. -/
theorem runs_value (v : Value) {a : State} {up : List Frame}
    (ha : BeginsValue a up) : Runs v.lexemes a (.after v.tree up) := by
  cases v with
  | null => exact runs_scalar ha fun rest _ => tokens_null rest
  | boolean b => exact runs_scalar ha fun rest _ => tokens_boolean b rest
  | natural n => exact runs_scalar ha fun rest h => tokens_toString n h
  | text s => exact runs_scalar ha fun rest _ => tokens_writeText s rest
  | real x =>
    obtain ⟨s, htree, htokens⟩ := exists_tree_real x
    rw [htree]
    exact runs_scalar ha htokens
  | list items =>
    rw [Value.lexemes, Value.tree]
    apply Runs.cons tokens_listOpen
    rw [ha .listOpen nofun]
    by_cases hi : items = []
    · subst hi
      exact Runs.cons tokens_listClose (.nil _)
    · exact runs_items items hi (beginsValue_listStart up)
  | object members =>
    rw [Value.lexemes, Value.tree]
    apply Runs.cons tokens_objectOpen
    rw [ha .objectOpen nofun]
    by_cases hm : members = []
    · subst hm
      exact Runs.cons tokens_objectClose (.nil _)
    · exact runs_members members hm (beginsMember_objectStart up)

theorem runs_items (items : List Value) (hne : items ≠ []) {a : State}
    {before : List Tree} {up : List Frame} (ha : BeginsValue a (.list before :: up)) :
    Runs ([","].intercalate (Value.itemLexemes items) ++ ["]"]) a
      (.after (.list (before.reverse ++ Value.itemTrees items) .closed) up) := by
  match items with
  | [] => exact (hne rfl).elim
  | v :: rest =>
    have hrun := runs_value v ha
    match rest with
    | [] =>
      rw [Value.itemLexemes, Value.itemLexemes, List.intercalate_singleton]
      exact hrun.append parted_listClose (runs_listClose v.tree before up)
    | w :: rest =>
      have hnext := runs_items (w :: rest) nofun (beginsValue_listNext (v.tree :: before) up)
      rw [List.reverse_cons, List.append_assoc] at hnext
      rw [Value.itemLexemes, Value.itemLexemes, List.intercalate_cons_cons,
        List.append_assoc, List.append_assoc]
      exact hrun.append parted_comma (Runs.cons tokens_comma hnext)

theorem runs_members (members : List (String × Value)) (hne : members ≠ [])
    {a : State} {before : List (Quoted × Tree)} {up : List Frame} (ha : BeginsMember a before up) :
    Runs ([","].intercalate (Value.memberLexemes members) ++ ["\x7d"]) a
      (.after (.object (before.reverse ++ Value.memberTrees members) .closed) up) := by
  match members with
  | [] => exact (hne rfl).elim
  | (key, v) :: rest =>
    have hvalue := runs_value v (beginsValue_value (.object before (.ofText key) :: up))
    have hrun : Runs (writeText key :: ":" :: v.lexemes) a
        (.after v.tree (.object before (.ofText key) :: up)) := by
      apply Runs.cons (tokens_writeText key)
      rw [ha (.scalar (.text (.ofText key))) nofun]
      exact Runs.cons tokens_colon hvalue
    match rest with
    | [] =>
      rw [Value.memberLexemes, Value.memberLexemes, List.intercalate_singleton]
      exact hrun.append parted_objectClose (runs_objectClose (.ofText key) v.tree before up)
    | (key', w) :: rest =>
      have hnext := runs_members ((key', w) :: rest) nofun
        (beginsMember_objectNext ((.ofText key, v.tree) :: before) up)
      rw [List.reverse_cons, List.append_assoc] at hnext
      rw [Value.memberLexemes, Value.memberLexemes, List.intercalate_cons_cons,
        List.append_assoc, List.append_assoc]
      exact hrun.append parted_comma (Runs.cons tokens_comma hnext)

end

/-- A text that spells a document is read as its tree, and nothing follows. -/
theorem ofText_spells {v : Value} {s : String} (h : v.Spells s) :
    Document.ofText s = ⟨v.tree, false⟩ := by
  have hall : Spaced (v.lexemes ++ []) s.toList := by rwa [List.append_nil]
  obtain ⟨cs, hcs, he⟩ := runs_value v (beginsValue_value []) [] s.toList hall nofun
  cases hcs with
  | done hw =>
    have hnil : tokens cs = [] := by
      have := tokens_append_of_spaces hw []
      rwa [List.append_nil, tokens] at this
    rw [Document.ofText, Document.ofTokens, he, hnil]
    rfl

end LadderDiagram.Json
