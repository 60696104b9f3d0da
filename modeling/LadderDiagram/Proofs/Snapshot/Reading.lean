import LadderDiagram.Proofs.Snapshot.Document
import LadderDiagram.Proofs.Success

/-!
# Readers that restore what was written

A reader restores values if it reads every presentation of a written value as that value
(`Restores`). Each way to build readers has its law: scalars, optional values and lists here, and
records by `Record.Describes.reads`. A record is described by its `Slot`s, one for each field: what
was written there and how reading it changes the record. Changes of different slots commute, so
the members may come in any order, and a slot that holds its default may be left out.
-/

namespace LadderDiagram.Json

variable {α β : Type}

namespace Value

theorem skip_of_isPlain {v : Value} (h : v.isPlain) : v.tree.skip = .ok () := by
  cases v with
  | null | boolean _ | text _ => rfl
  | natural _ | real _ | list _ | object _ => cases h

theorem retain_of_isPlain {v : Value} (h : v.isPlain) (depth : Nat) :
    v.tree.retain depth = .ok () := by
  cases v with
  | text s =>
    show (Scalar.text (.ofText s)).found.map _ = _
    rw [Scalar.found, Quoted.decode_ofText]
    rfl
  | null | boolean _ => rfl
  | natural _ | real _ | list _ | object _ => cases h

end Value

namespace Tree

theorem retainItems_eq_ok {depth : Nat} {items : List Value}
    (h : ∀ v ∈ items, v.tree.retain depth = .ok ()) :
    retainItems depth (Value.itemTrees items) = .ok () := by
  induction items with
  | nil => rfl
  | cons v rest ih =>
    rw [Value.itemTrees, retainItems, h v List.mem_cons_self]
    exact ih fun w hw => h w (List.mem_cons_of_mem v hw)

theorem retainMembers_eq_ok {depth : Nat} {members : List (String × Value)} :
    retainMembers depth (Value.memberTrees members) = .ok () ↔
      ∀ m ∈ members, m.2.tree.retain depth = .ok () := by
  induction members with
  | nil => exact ⟨fun _ => nofun, fun _ => rfl⟩
  | cons m rest ih =>
    rw [Value.memberTrees, retainMembers, Quoted.decode_ofText, List.forall_mem_cons, ← ih]
    show (retain depth m.2.tree >>= fun _ => _) = _ ↔ _
    rw [bind_eq_ok]
    exact ⟨fun ⟨_, hm, hrest⟩ => ⟨hm, hrest⟩, fun ⟨hm, hrest⟩ => ⟨(), hm, hrest⟩⟩

/-- An object can be kept if there is room for one more container and its members can be kept in
it. -/
theorem retain_object {depth : Nat} {members : List (String × Value)} (hd : depth < depthLimit)
    (h : ∀ m ∈ members, m.2.tree.retain (depth + 1) = .ok ()) :
    (Value.object members).tree.retain depth = .ok () := by
  rw [Value.tree, retain, if_neg (Nat.not_le.2 hd), retainMembers_eq_ok.2 h]
  rfl

theorem retain_of_mem {depth : Nat} {members : List (String × Value)}
    (h : (Value.object members).tree.retain depth = .ok ()) {m : String × Value}
    (hm : m ∈ members) : m.2.tree.retain (depth + 1) = .ok () := by
  rw [Value.tree, retain] at h
  split at h
  · cases h
  · obtain ⟨_, hmembers, -⟩ := bind_eq_ok.1 h
    exact retainMembers_eq_ok.1 hmembers m hm

end Tree

/-! ## Laws of readers -/

/-- The reader, which needs room for so many more open containers, reads the document as `a`, and
the document can be kept. -/
structure Reads (read : Reader α) (height : Nat) (a : α) (v : Value) : Prop where
  read_eq : ∀ scope : Scope, scope.depth + height ≤ depthLimit → read scope v.tree = .ok a
  retain_eq : ∀ depth, depth + height ≤ depthLimit → v.tree.retain depth = .ok ()

/-- The reader reads what is written for a value, in each of its forms, as that value. -/
def Restores (read : Reader α) (height : Nat) (toValue : α → Value) (form : Form) : Prop :=
  ∀ a v, (toValue a).EachReal ReadsBack → form (toValue a) v → Reads read height a v

theorem restores_text : Restores Reader.text 0 Value.text .same := by
  rintro s _ - rfl
  exact ⟨fun _ _ => Quoted.decode_ofText s, fun _ _ => Value.retain_of_isPlain rfl _⟩

theorem restores_real : Restores Reader.real 0 Value.real .same := by
  rintro x _ hs rfl
  obtain ⟨n, htree, hn⟩ := (hs x (by simp [Value.reals])).exists_tree
  refine ⟨fun scope _ => ?_, fun depth _ => ?_⟩
  · rw [htree]
    exact hn
  · rw [htree]
    show (n.value.map Number.found).map _ = _
    cases hv : n.value with
    | error e => rw [hv] at hn; cases hn
    | ok v => rfl

theorem natural_ofNat {n bound : Nat} (hb : bound ≤ UInt64.size) (h : n < bound)
    (wanted : Wanted) (scope : Scope) :
    Reader.natural bound wanted scope (Value.natural n).tree = .ok n := by
  show ((Numeral.ofNat n).value >>= _) = _
  rw [Numeral.value_ofNat (by omega)]
  show (if (0 : Int) ≤ n ∧ (n : Int) < bound then _ else _) = _
  rw [if_pos (by omega)]
  rfl

theorem retain_natural {n : Nat} (h : n < UInt64.size) (depth : Nat) :
    (Value.natural n).tree.retain depth = .ok () := by
  show (((Numeral.ofNat n).value.map Number.found).map fun _ => ()) = _
  rw [Numeral.value_ofNat h]
  rfl

theorem restores_word64 : Restores Reader.word64 0 (fun n => .natural n.toNat) .same := by
  rintro n _ - rfl
  refine ⟨fun scope _ => ?_, fun depth _ => retain_natural n.toNat_lt depth⟩
  rw [Reader.word64, natural_ofNat (Nat.le_refl _) n.toNat_lt]
  exact congrArg Except.ok UInt64.ofNat_toNat

theorem restores_word32 : Restores Reader.word32 0 (fun n => .natural n.toNat) .same := by
  rintro n _ - rfl
  have hlt : n.toNat < UInt64.size := Nat.lt_trans n.toNat_lt (by decide)
  refine ⟨fun scope _ => ?_, fun depth _ => retain_natural hlt depth⟩
  rw [Reader.word32, natural_ofNat (by decide) n.toNat_lt]
  exact congrArg Except.ok UInt32.ofNat_toNat

theorem restores_variant {known : List (String × α)} {name : α → String}
    (h : ∀ a, known.lookup (name a) = some a) :
    Restores (.variant known) 0 (fun a => .text (name a)) .same := by
  rintro a _ - rfl
  have hpick : Reader.pick known (name a) = .ok a := by rw [Reader.pick, h]
  refine ⟨fun scope _ => ?_, fun depth _ => Value.retain_of_isPlain rfl depth⟩
  rw [Reader.variant]
  split
  · show ((Quoted.ofText (name a)).decode >>= _) = _
    rw [Quoted.decode_ofText]
    exact hpick
  · show ((Quoted.ofText (name a)).decode >>= _) = _
    rw [Quoted.decode_ofText]
    exact hpick

/-- The variants go by different names. -/
theorem eq_of_lookup {known : List (String × α)} {name : α → String}
    (h : ∀ a, known.lookup (name a) = some a) {a b : α}
    (he : Value.text (name a) = .text (name b)) : a = b := by
  have ha := h a
  rw [Value.text.inj he, h b] at ha
  exact (Option.some.inj ha).symm

theorem Restores.optional {read : Reader α} {height : Nat} {toValue : α → Value} {form : Form}
    (h : Restores read height toValue form) (hne : ∀ a, toValue a ≠ .null)
    (hnull : ∀ scope a, read scope (.scalar .null) ≠ .ok a) :
    Restores (.optional read) height (.ofOption toValue) (.optional form) := by
  rintro (_ | a) v hs hf
  · rcases hf with ⟨-, rfl⟩ | ⟨hv, -⟩
    · exact ⟨fun _ _ => rfl, fun depth _ => Value.retain_of_isPlain rfl depth⟩
    · exact (hv rfl).elim
  · rcases hf with ⟨ha, -⟩ | ⟨-, hf⟩
    · exact (hne a ha).elim
    · obtain ⟨hread, hretain⟩ := h a v hs hf
      refine ⟨fun scope hd => ?_, hretain⟩
      have hv := hread scope hd
      rw [Reader.optional, hv]
      · rfl
      · intro ht
        rw [ht] at hv
        exact hnull scope a hv

theorem eq_none_of_ofOption {toValue : α → Value} (h : ∀ a, toValue a ≠ .null)
    {o : Option α} (ho : Value.ofOption toValue o = .null) : o = none := by
  cases o with
  | none => rfl
  | some a => exact (h a ho).elim

theorem eq_nil_of_map {toValue : α → Value} {as : List α}
    (h : Value.list (as.map toValue) = .list []) : as = [] :=
  List.map_eq_nil_iff.1 (Value.list.inj h)

theorem eq_zero_of_natural {n : UInt32} (h : Value.natural n.toNat = .natural 0) : n = 0 :=
  UInt32.toNat_inj.1 (Value.natural.inj h)

theorem items_eq_ok {read : Reader α} {scope : Scope} {as : List α} {items : List Value}
    (h : List.Forall₂ (fun a v => read scope v.tree = .ok a) as items) :
    Reader.items read scope (Value.itemTrees items) = .ok as := by
  induction h with
  | nil => rfl
  | cons ha _ ih =>
    rw [Value.itemTrees, Reader.items, ha, ih]
    rfl

theorem Restores.list {read : Reader α} {height : Nat} {toValue : α → Value} {form : Form}
    (h : Restores read height toValue form) :
    Restores (.list read) (height + 1) (fun as => .list (as.map toValue)) (.list form) := by
  rintro as _ hs ⟨_, items, hitems, rfl, hforms⟩
  cases hitems
  have heach : ∀ a ∈ as, (toValue a).EachReal ReadsBack :=
    List.forall_mem_map.1 (Value.eachReal_list.1 hs)
  have hreads : List.Forall₂ (Reads read height) as items :=
    ((List.forall₂_and_left as items).2 ⟨heach, List.forall₂_map_left_iff.1 hforms⟩).imp
      fun a v ha => h a v ha.1 ha.2
  refine ⟨fun scope hd => ?_, fun depth hd => ?_⟩
  · have hi := items_eq_ok (hreads.imp fun a v hr => hr.read_eq scope.inner (by
      show scope.depth + 1 + height ≤ _
      omega))
    rw [Value.tree, Reader.list, hi]
    rfl
  · rw [Value.tree, Tree.retain, if_neg (by omega), Tree.retainItems_eq_ok]
    · rfl
    · intro v hv
      obtain ⟨a, -, hr⟩ := exists_left_of_forall₂ hreads hv
      exact hr.retain_eq _ (by omega)

/-! ## Records -/

/-- One field of a record: the member it stands in, how it is read, what was written there, and
the record with that put into it. -/
structure Slot (α : Type) where
  known : Known
  required : Bool
  read : Scope → Tree → α → Except Fault α
  value : Value
  put : α → α

namespace Slot

def ofReader (known : Known) (required : Bool) (read : Reader β) (set : α → β → α)
    (toValue : β → Value) (b : β) : Slot α where
  known := known
  required := required
  read := (Field.ofReader known.name required read set).read
  value := toValue b
  put a := set a b

def must (name : String) (form : Form) (read : Reader β) (set : α → β → α) (toValue : β → Value)
    (b : β) : Slot α := ofReader (.must name form) true read set toValue b

def may (name : String) (default : Value) (form : Form) (read : Reader β) (set : α → β → α)
    (toValue : β → Value) (b : β) : Slot α :=
  ofReader (.may name default form) false read set toValue b

def name (s : Slot α) : String := s.known.name

def field (s : Slot α) : Field α := ⟨s.name, s.required, s.read⟩

@[simp] theorem name_field (s : Slot α) : s.field.name = s.name := rfl

def member (s : Slot α) : String × Value := (s.name, s.value)

/-- What the slot holds is read in each of its forms and put into the record; it may be left out
only if it is in the initial record already. -/
structure Lawful (s : Slot α) (height : Nat) (initial : α) : Prop where
  reads : ∀ v, s.value.EachReal ReadsBack → s.known.form s.value v → ∀ a,
    Reads (fun scope t => s.read scope t a) height (s.put a) v
  omitted : s.known.default = some s.value → s.required = false ∧ s.put initial = initial

section
variable {name : String} {form : Form} {read : Reader β} {set : α → β → α} {toValue : β → Value}
  {b : β} {h height : Nat} {initial : α} (hr : Restores read h toValue form) (hh : h ≤ height)
include hr hh

theorem reads_ofReader {known : Known} (hf : known.form = form) {required : Bool} (v : Value)
    (hs : (toValue b).EachReal ReadsBack) (hv : known.form (toValue b) v) (a : α) :
    Reads (fun scope t => (ofReader known required read set toValue b).read scope t a) height
      (set a b) v := by
  subst hf
  obtain ⟨hread, hretain⟩ := hr b v hs hv
  refine ⟨fun scope hd => ?_, fun depth hd => hretain depth (by omega)⟩
  show (read scope v.tree >>= fun x => pure (set a x)) = _
  rw [hread scope (by omega)]
  rfl

theorem Lawful.must : (Slot.must name form read set toValue b).Lawful height initial :=
  ⟨reads_ofReader hr hh rfl, nofun⟩

/-- A slot may be left out if only `b₀` is written as its default, and the initial record has
`b₀` in that place. -/
theorem Lawful.may {default : Value} {b₀ : β} (hd : toValue b = default → b = b₀)
    (hi : set initial b₀ = initial) :
    (Slot.may name default form read set toValue b).Lawful height initial := by
  refine ⟨reads_ofReader hr hh rfl, fun h => ⟨rfl, ?_⟩⟩
  show set initial b = initial
  rw [hd (Option.some.inj h).symm, hi]

end

end Slot

/-- The members are those of the slots in `ss`, in their forms and in this order, and plain ones
of other names among them. -/
inductive Chosen (slots : List (Slot α)) : List (String × Value) → List (Slot α) → Prop where
  | nil : Chosen slots [] []
  | slot {s : Slot α} {v : Value} {ms : List (String × Value)} {ss : List (Slot α)} :
      s ∈ slots → s.known.form s.value v → Chosen slots ms ss →
        Chosen slots ((s.name, v) :: ms) (s :: ss)
  | extra {m : String × Value} {ms : List (String × Value)} {ss : List (Slot α)} :
      m.1 ∉ slots.map (·.name) → m.2.isPlain → Chosen slots ms ss → Chosen slots (m :: ms) ss

namespace Chosen

variable {slots ss : List (Slot α)} {ms ms' : List (String × Value)}

theorem perm (hp : ms.Perm ms') (h : Chosen slots ms ss) :
    ∃ ss', Chosen slots ms' ss' ∧ ss'.Perm ss := by
  induction hp generalizing ss with
  | nil => exact ⟨ss, h, .refl _⟩
  | cons m _ ih =>
    cases h with
    | slot hs hf h =>
      obtain ⟨ss', hc, hp⟩ := ih h
      exact ⟨_, .slot hs hf hc, hp.cons _⟩
    | extra hm hp h =>
      obtain ⟨ss', hc, hp'⟩ := ih h
      exact ⟨_, .extra hm hp hc, hp'⟩
  | swap m m' ms =>
    cases h with
    | slot hs hf h =>
      cases h with
      | slot hs' hf' h => exact ⟨_, .slot hs' hf' (.slot hs hf h), .swap _ _ _⟩
      | extra hm hp h => exact ⟨_, .extra hm hp (.slot hs hf h), .refl _⟩
    | extra hm hp h =>
      cases h with
      | slot hs' hf' h => exact ⟨_, .slot hs' hf' (.extra hm hp h), .refl _⟩
      | extra hm' hp' h => exact ⟨_, .extra hm' hp' (.extra hm hp h), .refl _⟩
  | trans _ _ ih ih' =>
    obtain ⟨ss', hc, hp⟩ := ih h
    obtain ⟨ss'', hc', hp'⟩ := ih' hc
    exact ⟨ss'', hc', hp'.trans hp⟩

theorem append_extra (h : Chosen slots ms ss)
    (he : ∀ m ∈ ms', m.1 ∉ slots.map (·.name) ∧ m.2.isPlain) :
    Chosen slots (ms ++ ms') ss := by
  induction h with
  | nil =>
    rw [List.nil_append]
    induction ms' with
    | nil => exact .nil
    | cons m ms' ih =>
      obtain ⟨⟨hn, hp⟩, he⟩ := List.forall_mem_cons.1 he
      exact .extra hn hp (ih he)
  | slot hs hf _ ih => exact .slot hs hf ih
  | extra hm hp _ ih => exact .extra hm hp ih

/-- Every member is plain or a form of what was written in a slot. -/
theorem cases_of_mem (h : Chosen slots ms ss) {m : String × Value} (hm : m ∈ ms) :
    m.2.isPlain ∨ ∃ s ∈ slots, s.known.form s.value m.2 := by
  induction h with
  | nil => cases hm
  | slot hs hf _ ih =>
    rcases List.mem_cons.1 hm with rfl | hm
    · exact .inr ⟨_, hs, hf⟩
    · exact ih hm
  | extra _ hp _ ih =>
    rcases List.mem_cons.1 hm with rfl | hm
    · exact .inl hp
    · exact ih hm

/-- What is shown of some slots is what was written in those that are not left out. -/
theorem of_shown {rest : List (Slot α)} (hrest : ∀ s ∈ rest, s ∈ slots)
    (h : Shown (rest.map (·.known)) (rest.map (·.member)) ms) :
    ∃ ss omitted, Chosen slots ms ss ∧ rest.Perm (omitted ++ ss) ∧
      ∀ s ∈ omitted, s.known.default = some s.value := by
  induction rest generalizing ms with
  | nil =>
    cases h
    exact ⟨[], [], .nil, .refl _, nofun⟩
  | cons s rest ih =>
    obtain ⟨hs, hrest⟩ := List.forall_mem_cons.1 hrest
    cases h with
    | keep hf h =>
      obtain ⟨ss, omitted, hc, hp, ho⟩ := ih hrest h
      exact ⟨s :: ss, omitted, .slot hs hf hc, (hp.cons s).trans List.perm_middle.symm, ho⟩
    | drop hd h =>
      obtain ⟨ss, omitted, hc, hp, ho⟩ := ih hrest h
      exact ⟨ss, s :: omitted, hc, hp.cons s, List.forall_mem_cons.2 ⟨hd, ho⟩⟩

end Chosen

theorem find?_of_nodup {slots : List (Slot α)} (hn : (slots.map (·.name)).Nodup) {s : Slot α}
    (hs : s ∈ slots) : slots.find? (·.name == s.name) = some s := by
  induction slots with
  | nil => cases hs
  | cons t slots ih =>
    obtain ⟨ht, hn⟩ := List.nodup_cons.1 hn
    rcases List.mem_cons.1 hs with rfl | hs
    · exact List.find?_cons_of_pos (by simp)
    · have hne : t.name ≠ s.name := fun he => ht (List.mem_map.2 ⟨s, hs, he.symm⟩)
      rw [List.find?_cons_of_neg (by simpa using hne), ih hn hs]

/-- The record reads the slots, each of which changes a part of its own, and all of which
together make `a`. -/
structure Record.Describes (r : Record α) (slots : List (Slot α)) (height : Nat) (a : α) :
    Prop where
  fields : r.fields = slots.map (·.field)
  nodup : (slots.map (·.name)).Nodup
  lawful : ∀ s ∈ slots, s.Lawful height r.initial
  commute : ∀ s ∈ slots, ∀ s' ∈ slots, ∀ b, s'.put (s.put b) = s.put (s'.put b)
  complete : slots.foldl (fun b s => s.put b) r.initial = a

namespace Record.Describes

variable {r : Record α} {slots : List (Slot α)} {height : Nat} {a : α}
  (h : r.Describes slots height a)
include h

theorem field?_of_mem {s : Slot α} (hm : s ∈ slots) :
    r.fields.find? (·.name == s.name) = some s.field := by
  rw [h.fields, List.find?_map]
  exact congrArg (Option.map _) (find?_of_nodup h.nodup hm)

theorem field?_of_not_mem {name : String} (hn : name ∉ slots.map (·.name)) :
    r.fields.find? (·.name == name) = none := by
  rw [h.fields, List.find?_eq_none]
  intro f hf
  obtain ⟨s, hs, rfl⟩ := List.mem_map.1 hf
  have hne : s.name ≠ name := fun he => hn (he ▸ List.mem_map_of_mem hs)
  simpa using hne

theorem member_of_slot {s : Slot α} (hm : s ∈ slots) {v : Value}
    (hs : s.value.EachReal ReadsBack) (hf : s.known.form s.value v) {scope : Scope}
    (hd : scope.depth + height ≤ depthLimit)
    {seen : List String} (hn : s.name ∉ seen) (b : α) :
    r.member scope (seen, b) (.ofText s.name, v.tree) = .ok (s.name :: seen, s.put b) := by
  rw [Record.member, Quoted.decode_ofText]
  simp only [bind, Except.bind, h.field?_of_mem hm]
  rw [if_neg (by simpa using hn)]
  show (s.read scope v.tree b >>= fun a => pure (s.name :: seen, a)) = _
  rw [(((h.lawful s hm).reads v hs hf b).read_eq scope hd : s.read scope v.tree b = _)]
  rfl

theorem member_of_extra {m : String × Value} (hn : m.1 ∉ slots.map (·.name)) (hp : m.2.isPlain)
    (scope : Scope) (state : List String × α) :
    r.member scope state (.ofText m.1, m.2.tree) = .ok state := by
  rw [Record.member, Quoted.decode_ofText]
  simp only [bind, Except.bind, h.field?_of_not_mem hn, Value.skip_of_isPlain hp]
  rfl

theorem members_eq (hs : ∀ s ∈ slots, s.value.EachReal ReadsBack) {ms : List (String × Value)}
    {ss : List (Slot α)} (hc : Chosen slots ms ss) {scope : Scope}
    (hd : scope.depth + height ≤ depthLimit) {seen : List String}
    (hn : (seen ++ ss.map (·.name)).Nodup) (b : α) :
    r.members scope (Value.memberTrees ms) (seen, b) =
      .ok ((ss.map (·.name)).reverse ++ seen, ss.foldl (fun b s => s.put b) b) := by
  induction hc generalizing seen b with
  | nil => rfl
  | @slot s v ms ss hm hf _ ih =>
    have hnames : (s.name :: seen ++ ss.map (·.name)).Nodup :=
      List.perm_middle.nodup_iff.1 hn
    have hnew : s.name ∉ seen := fun hmem =>
      (List.nodup_cons.1 hnames).1 (List.mem_append_left _ hmem)
    rw [Value.memberTrees, Record.members, h.member_of_slot hm (hs s hm) hf hd hnew]
    show r.members scope _ (s.name :: seen, s.put b) = _
    rw [ih hnames]
    simp
  | @extra m ms ss hm hp _ ih =>
    rw [Value.memberTrees, Record.members, h.member_of_extra hm hp]
    exact ih hn b

/-- Whatever slots are left out and in whatever order the others are read, the record is made. -/
theorem foldl_eq {omitted ss : List (Slot α)} (hp : slots.Perm (omitted ++ ss))
    (ho : ∀ s ∈ omitted, s.known.default = some s.value) :
    ss.foldl (fun b s => s.put b) r.initial = a := by
  have homitted : omitted.foldl (fun b s => s.put b) r.initial = r.initial := by
    have hmem : ∀ s ∈ omitted, s ∈ slots := fun s hm =>
      hp.mem_iff.2 (List.mem_append_left ss hm)
    clear hp
    induction omitted with
    | nil => rfl
    | cons s omitted ih =>
      obtain ⟨hd, ho⟩ := List.forall_mem_cons.1 ho
      obtain ⟨hm, hmem⟩ := List.forall_mem_cons.1 hmem
      rw [List.foldl_cons, ((h.lawful s hm).omitted hd).2, ih ho hmem]
  rw [← h.complete, hp.foldl_eq' fun s hm s' hm' b => h.commute s hm s' hm' b,
    List.foldl_append, homitted]

theorem missing_eq_none {omitted ss : List (Slot α)} (hp : slots.Perm (omitted ++ ss))
    (ho : ∀ s ∈ omitted, s.known.default = some s.value) {seen : List String}
    (hseen : ∀ s ∈ ss, s.name ∈ seen) :
    r.fields.find? (fun field => field.required && !seen.contains field.name) = none := by
  rw [h.fields, List.find?_eq_none]
  intro f hf
  obtain ⟨s, hm, rfl⟩ := List.mem_map.1 hf
  rcases List.mem_append.1 (hp.mem_iff.1 hm) with hmo | hms
  · have hrequired : s.field.required = false := ((h.lawful s hm).omitted (ho s hmo)).1
    simp [hrequired]
  · simp [hseen s hms]

/-- **A record is restored**, whatever its members' order, which of them are left out, and what
others there are. -/
theorem reads {v : Value} (hs : (Value.object (slots.map (·.member))).EachReal ReadsBack)
    (hf : Form.record (slots.map (·.known)) (.object (slots.map (·.member))) v) :
    Reads r.read (height + 1) a v := by
  have hs : ∀ s ∈ slots, s.value.EachReal ReadsBack := fun s hm =>
    Value.eachReal_object.1 hs s.member (List.mem_map_of_mem hm)
  obtain ⟨_, shown, members, hm, rfl, hshown, extra, hperm, hextra⟩ := hf
  cases hm
  rw [List.map_map] at hextra
  obtain ⟨ss', omitted, hc', hp', ho⟩ := Chosen.of_shown (fun s hs => hs) hshown
  obtain ⟨ss, hc, hp⟩ := (hc'.append_extra hextra).perm hperm.symm
  have hslots : slots.Perm (omitted ++ ss) := hp'.trans (hp.symm.append_left omitted)
  have hnodup : (ss.map (·.name)).Nodup := by
    have hn := (hslots.map (·.name)).nodup_iff.1 h.nodup
    rw [List.map_append] at hn
    exact (List.nodup_append.1 hn).2.1
  refine ⟨fun scope hd => ?_, fun depth hd => ?_⟩
  · have hinner : scope.inner.depth + height ≤ depthLimit := by
      show scope.depth + 1 + height ≤ _
      omega
    have hseen : ∀ s ∈ ss, s.name ∈ (ss.map (·.name)).reverse ++ [] := by
      intro s hs
      simpa using ⟨s, hs, rfl⟩
    have hmembers : r.members scope.inner (Value.memberTrees members) ([], r.initial) = _ :=
      h.members_eq hs hc hinner hnodup r.initial
    have hmissing := h.missing_eq_none hslots ho hseen
    show r.ofMembers scope.inner (Value.memberTrees members) .closed = _
    rw [Record.ofMembers, hmembers]
    simp only [bind, Except.bind, Ending.checkObject]
    rw [hmissing, h.foldl_eq hslots ho]
    rfl
  · refine Tree.retain_object (by omega) fun m hm => ?_
    rcases hc.cases_of_mem hm with hplain | ⟨s, hmem, hform⟩
    · exact Value.retain_of_isPlain hplain _
    · exact ((h.lawful s hmem).reads m.2 (hs s hmem) hform a).retain_eq _ (by omega)

end Record.Describes

/-! ## Tagged records -/

theorem Shown.mem_names {ks : List Known} {ms ms' : List (String × Value)} (h : Shown ks ms ms') :
    ∀ m ∈ ms', m.1 ∈ ks.map (·.name) := by
  induction h with
  | nil => exact nofun
  | keep _ _ ih =>
    exact List.forall_mem_cons.2 ⟨List.mem_cons_self, fun m hm => List.mem_cons_of_mem _ (ih m hm)⟩
  | drop _ _ ih => exact fun m hm => List.mem_cons_of_mem _ (ih m hm)

namespace Tagged

variable {tag : String} {scope : Scope}

theorem members_of_not_mem {ms : List (String × Value)} {kind : Option String}
    (hn : ∀ m ∈ ms, m.1 ≠ tag) (hr : ∀ m ∈ ms, m.2.tree.retain scope.depth = .ok ()) :
    members tag scope (Value.memberTrees ms) kind = .ok (kind, Value.memberTrees ms) := by
  induction ms with
  | nil => rfl
  | cons m ms ih =>
    obtain ⟨hne, hn⟩ := List.forall_mem_cons.1 hn
    obtain ⟨hm, hr⟩ := List.forall_mem_cons.1 hr
    rw [Value.memberTrees, members, Quoted.decode_ofText]
    simp only [bind, Except.bind]
    rw [if_neg hne, hm, ih hn hr]
    rfl

/-- The member that names the kind may stand anywhere among the others. -/
theorem members_of_split {before after : List (String × Value)} {kind : String}
    (hn : ∀ m ∈ before ++ after, m.1 ≠ tag)
    (hr : ∀ m ∈ before ++ after, m.2.tree.retain scope.depth = .ok ()) :
    members tag scope (Value.memberTrees (before ++ (tag, .text kind) :: after)) none =
      .ok (some kind, Value.memberTrees (before ++ after)) := by
  induction before with
  | nil =>
    have hkind : kindName scope (Value.text kind).tree = .ok kind := Quoted.decode_ofText kind
    rw [List.nil_append, Value.memberTrees, members, Quoted.decode_ofText]
    simp only [bind, Except.bind, if_true, hkind]
    exact members_of_not_mem hn hr
  | cons m before ih =>
    obtain ⟨hne, hn⟩ := List.forall_mem_cons.1 hn
    obtain ⟨hm, hr⟩ := List.forall_mem_cons.1 hr
    rw [List.cons_append, Value.memberTrees, members, Quoted.decode_ofText]
    simp only [bind, Except.bind]
    rw [if_neg hne, hm, ih hn hr]
    rfl

/-- The kind is told apart from the other members, which keep their order. -/
theorem read_of_perm {title kind : String} {ms others : List (String × Value)}
    (hp : ms.Perm ((tag, .text kind) :: others)) (hn : ∀ m ∈ others, m.1 ≠ tag)
    (hr : ∀ m ∈ others, m.2.tree.retain (scope.depth + 1) = .ok ()) :
    ∃ others', others'.Perm others ∧ read tag title scope (Value.object ms).tree =
      .ok ⟨kind, (Value.object others').tree⟩ := by
  obtain ⟨before, after, rfl⟩ := List.append_of_mem (hp.mem_iff.2 List.mem_cons_self)
  have hothers : (before ++ after).Perm others :=
    List.Perm.cons_inv ((List.perm_middle.symm).trans hp)
  refine ⟨_, hothers, ?_⟩
  show ofMembers tag scope.inner _ .closed = _
  rw [ofMembers, members_of_split]
  · rfl
  · exact fun m hm => hn m (hothers.mem_iff.1 hm)
  · exact fun m hm => hr m (hothers.mem_iff.1 hm)

end Tagged

/-- **A tagged record is restored**: its kind is found wherever it stands, and the other members
are read as the record of that kind. -/
theorem Record.Describes.tagged {r : Record α} {slots : List (Slot α)} {height : Nat} {a : α}
    (h : r.Describes slots height a) {tag kind : String} {known : String → List Known}
    (hk : known kind = slots.map (·.known)) {v : Value}
    (hs : (Value.object ((tag, .text kind) :: slots.map (·.member))).EachReal ReadsBack)
    (hf : Form.tagged tag known (.object ((tag, .text kind) :: slots.map (·.member))) v)
    (htag : tag ∉ slots.map (·.name)) :
    (∀ title, ∀ scope : Scope, scope.depth + (height + 1) ≤ depthLimit → ∃ content,
        Tagged.read tag title scope v.tree = .ok ⟨kind, .object content .closed⟩ ∧
          r.read Tagged.scope (.object content .closed) = .ok a) ∧
      ∀ depth, depth + (height + 1) ≤ depthLimit → v.tree.retain depth = .ok () := by
  obtain ⟨_, _, shown, members, hm, rfl, hshown, extra, hperm, hextra⟩ := hf
  cases hm
  rw [hk] at hshown hextra
  have hs : (Value.object (slots.map (·.member))).EachReal ReadsBack :=
    Value.eachReal_object.2 (List.forall_mem_cons.1 (Value.eachReal_object.1 hs)).2
  have hreads {others : List (String × Value)} (hp : others.Perm (shown ++ extra)) :
      Reads r.read (height + 1) a (.object others) := by
    refine h.reads hs ⟨_, shown, others, rfl, rfl, hshown, extra, hp, fun m hm => ?_⟩
    obtain ⟨hn, hplain⟩ := hextra m hm
    exact ⟨fun hmem => hn (List.mem_cons_of_mem tag hmem), hplain⟩
  have hnames : ∀ m ∈ shown ++ extra, m.1 ≠ tag := by
    intro m hm he
    rcases List.mem_append.1 hm with hm | hm
    · have hmem := hshown.mem_names m hm
      rw [List.map_map, he] at hmem
      exact htag hmem
    · exact (hextra m hm).1 (he ▸ List.mem_cons_self)
  have hretain {depth : Nat} (hd : depth + (height + 1) ≤ depthLimit) :
      ∀ m ∈ shown ++ extra, m.2.tree.retain (depth + 1) = .ok () := fun m hm =>
    Tree.retain_of_mem ((hreads (.refl _)).retain_eq depth hd) hm
  refine ⟨fun title scope hd => ?_, fun depth hd => ?_⟩
  · obtain ⟨others, hp, hread⟩ := Tagged.read_of_perm hperm hnames (hretain hd)
    exact ⟨_, hread, (hreads hp).read_eq Tagged.scope (by
      show 0 + (height + 1) ≤ _
      omega)⟩
  · refine Tree.retain_object (by omega) fun m hm => ?_
    rcases List.mem_cons.1 (hperm.mem_iff.1 hm) with rfl | hm
    · exact Value.retain_of_isPlain rfl _
    · exact hretain hd m hm

end LadderDiagram.Json
