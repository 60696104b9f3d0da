import LadderDiagram.Proofs.Lowering

/-!
# Output pins

By which pin a block is cited. A wire straight from the block names the pin that
it leaves. A wire that comes by way of markers names the main output of the
block, whichever pin it leaves: the pins that are wired and the pins that are
cited can differ, and `cited_pins_iff` says when they do not.
-/

namespace LadderDiagram

open Body (Element)

namespace Rung

/-- A chain of edges leaves the block with local id `id` through its pin `h` and arrives at an
input side of `n`. -/
def ChainPin (r : Rung) (n : Node) (side : Option String) (id : UInt64) (h : String) : Prop :=
  ∃ b x e l, b.kind.tag = "block" ∧ r.Chain b e l x ∧ l.target = n.id ∧
    (∀ k ∈ side, l.targetHandle = k) ∧ b.numericId = id ∧ e.sourceHandle = h

/-- The chain is a single edge. -/
def DirectPin (r : Rung) (n : Node) (side : Option String) (id : UInt64) (h : String) : Prop :=
  ∃ b l, b.kind.tag = "block" ∧ r.Enters b l n side ∧ b.numericId = id ∧ l.sourceHandle = h

/-- The chain passes a marker. -/
def MarkerPin (r : Rung) (n : Node) (side : Option String) (id : UInt64) (h : String) : Prop :=
  ∃ b m e k l, b.kind.tag = "block" ∧ r.Chain b e k m ∧ m.kind.isParallel = true ∧
    r.Enters m l n side ∧ b.numericId = id ∧ e.sourceHandle = h

/-- The chain passes a marker, but the pin is the main output of the block. -/
def MainPin (r : Rung) (n : Node) (side : Option String) (id : UInt64) (h : String) : Prop :=
  ∃ b m e k l, b.kind.tag = "block" ∧ r.Chain b e k m ∧ m.kind.isParallel = true ∧
    r.Enters m l n side ∧ b.numericId = id ∧ b.output.map (·.id) = some h

theorem chainPin_iff {r : Rung} {n : Node} {side : Option String} {id : UInt64} {h : String} :
    r.ChainPin n side id h ↔ r.DirectPin n side id h ∨ r.MarkerPin n side id h := by
  constructor
  · rintro ⟨b, x, e, l, hb, hc, ht, hs, hid, hh⟩
    cases hc with
    | edge hl => exact .inl ⟨b, _, hb, ⟨⟨x, hl⟩, ht, hs⟩, hid, hh⟩
    | pass hc hm hl => exact .inr ⟨b, _, e, _, l, hb, hc, hm, ⟨⟨x, hl⟩, ht, hs⟩, hid, hh⟩
  · rintro (⟨b, l, hb, he, hid, hh⟩ | ⟨b, m, e, k, l, hb, hc, hm, he, hid, hh⟩)
    · obtain ⟨x, hl⟩ := he.leads
      exact ⟨b, x, l, l, hb, .edge hl, he.target, he.handle, hid, hh⟩
    · obtain ⟨x, hl⟩ := he.leads
      exact ⟨b, x, e, l, hb, .pass hc hm hl, he.target, he.handle, hid, hh⟩

end Rung

theorem Node.citedPin_eq_some {n : Node} {pin : Option String} {h : String} :
    n.citedPin pin = some h ↔ n.kind.tag = "block" ∧ pin = some h := by
  unfold citedPin
  cases n.kind <;> simp [NodeKind.tag]

theorem Node.isCitable_of_block {n : Node} (h : n.kind.tag = "block") : n.isCitable = true := by
  rw [isCitable_iff, h]
  decide

theorem RungContext.cites_pin_iff {r : Rung} {index : Nat} {offset : Offset} {n : Node}
    {e : Element} (he : r.Emits index offset n e) {side : Option String} (hs : side ∈ n.sides)
    {id : UInt64} {h : String} :
    e.Cites side id (some h) ↔ r.DirectPin n side id h ∨ r.MainPin n side id h := by
  obtain ⟨-, em, hem, hel⟩ := he
  rw [cites_iff hem hel hs]
  constructor
  · rintro ⟨m, l, a, hm, ⟨hnp, hb⟩, -, hid, hp⟩
    obtain ⟨ha, hp⟩ := Node.citedPin_eq_some.1 hp
    rcases hb with rfl | ⟨hpar, f, k, hc⟩
    · rw [if_neg (by rw [hnp]; decide)] at hp
      exact .inl ⟨a, l, ha, hm, hid, Option.some.inj hp⟩
    · rw [if_pos hpar] at hp
      exact .inr ⟨a, m, f, k, l, ha, hc, hpar, hm, hid, hp⟩
  · rintro (⟨b, l, hb, hm, hid, rfl⟩ | ⟨b, m, f, k, l, hb, hc, hpar, hm, hid, hp⟩)
    · have hcit := Node.isCitable_of_block hb
      have hnp := Node.isParallel_of_isCitable hcit
      refine ⟨b, l, b, hm, ⟨hnp, .inl rfl⟩, Node.isWireSource_of_isCitable hcit, hid, ?_⟩
      exact Node.citedPin_eq_some.2 ⟨hb, if_neg (by rw [hnp]; decide)⟩
    · have hcit := Node.isCitable_of_block hb
      have hnp := Node.isParallel_of_isCitable hcit
      refine ⟨m, l, b, hm, ⟨hnp, .inr ⟨hpar, f, k, hc⟩⟩, Node.isWireSource_of_isCitable hcit, hid,
        ?_⟩
      exact Node.citedPin_eq_some.2 ⟨hb, by rw [if_pos hpar]; exact hp⟩

/-- If blocks are wired to markers through their main outputs only, no pin is lost. -/
theorem Rung.markerPin_iff_mainPin {r : Rung}
    (hm : ∀ b e m, b.kind.tag = "block" → m.kind.isParallel = true → r.Leads b e m →
      b.output.map (·.id) = some e.sourceHandle) {n : Node} {side : Option String} {id : UInt64}
    {h : String} : r.MarkerPin n side id h ↔ r.MainPin n side id h := by
  have hmain {b m : Node} {e k : Edge} (hb : b.kind.tag = "block") (hc : r.Chain b e k m)
      (hpar : m.kind.isParallel = true) : b.output.map (·.id) = some e.sourceHandle := by
    obtain ⟨x, hx, hl⟩ := hc.first_parallel hpar
    exact hm b e x hb hx hl
  constructor
  · rintro ⟨b, m, e, k, l, hb, hc, hpar, hl, hid, rfl⟩
    exact ⟨b, m, e, k, l, hb, hc, hpar, hl, hid, hmain hb hc hpar⟩
  · rintro ⟨b, m, e, k, l, hb, hc, hpar, hl, hid, hh⟩
    rw [hmain hb hc hpar] at hh
    exact ⟨b, m, e, k, l, hb, hc, hpar, hl, hid, Option.some.inj hh⟩

/-- **Which pins are cited, and when they are the pins that are wired.** It is so for a side exactly
if every pin of a block that is wired to it by way of markers is the main output of the block or
wired straight as well, and every main output behind a marker is wired too; it is so for every
side if blocks are wired to markers through their main outputs only. -/
theorem cited_pins_iff {r : Rung} {index : Nat} {offset : Offset} {n : Node} {e : Element}
    (he : r.Emits index offset n e) {side : Option String} (hs : side ∈ n.sides) :
    (∀ id h, e.Cites side id (some h) ↔ r.DirectPin n side id h ∨ r.MainPin n side id h) ∧
    ((∀ id h, e.Cites side id (some h) ↔ r.ChainPin n side id h) ↔
      (∀ id h, r.MarkerPin n side id h → r.DirectPin n side id h ∨ r.MainPin n side id h) ∧
        ∀ id h, r.MainPin n side id h → r.DirectPin n side id h ∨ r.MarkerPin n side id h) ∧
    ((∀ b f m, b.kind.tag = "block" → m.kind.isParallel = true → r.Leads b f m →
        b.output.map (·.id) = some f.sourceHandle) →
      ∀ id h, e.Cites side id (some h) ↔ r.ChainPin n side id h) := by
  have hc (id : UInt64) (h : String) :
      e.Cites side id (some h) ↔ r.DirectPin n side id h ∨ r.MainPin n side id h :=
    RungContext.cites_pin_iff he hs
  refine ⟨hc, ⟨fun hall => ⟨fun id h hm => ?_, fun id h hm => ?_⟩, ?_⟩, fun hm id h => ?_⟩
  · exact (hc id h).1 ((hall id h).2 (Rung.chainPin_iff.2 (.inr hm)))
  · exact Rung.chainPin_iff.1 ((hall id h).1 ((hc id h).2 (.inr hm)))
  · rintro ⟨hmarker, hmain⟩ id h
    rw [hc, Rung.chainPin_iff]
    constructor
    · rintro (hd | hm)
      · exact .inl hd
      · exact hmain id h hm
    · rintro (hd | hm)
      · exact .inl hd
      · exact hmarker id h hm
  · rw [hc, Rung.chainPin_iff, Rung.markerPin_iff_mainPin hm]

/-- A block whose main output is `ENO`, wired through its pin `OUT` to a group of two contacts
and a coil. -/
def blockBeforeGroup : Rung where
  nodes := [
    { id := "rail", numericId := 1, kind := .leftRail },
    { id := "add", numericId := 2, output := some { id := "ENO" },
      kind := .block { typeName := "ADD", inputs := [{ id := "EN" }],
                       outputs := [{ id := "ENO" }, { id := "OUT" }] } },
    { id := "open", numericId := 3, kind := .parallelOpen { id := "down" } },
    { id := "a", numericId := 4, kind := .contact "a" .normal },
    { id := "b", numericId := 5, kind := .contact "b" .normal, output := some { id := "out" } },
    { id := "close", numericId := 6, kind := .parallelClose { id := "up" } },
    { id := "x", numericId := 7, kind := .coil "x" .normal }]
  edges := [
    ⟨"rail", "out", "add", "EN"⟩, ⟨"add", "OUT", "open", "in"⟩, ⟨"open", "out", "a", "in"⟩,
    ⟨"open", "down", "b", "in"⟩, ⟨"a", "out", "close", "in"⟩, ⟨"b", "out", "close", "up"⟩,
    ⟨"close", "out", "x", "in"⟩]

/-- The contacts of the group are wired to `OUT`, which neither of them cites. -/
theorem out_not_cited_behind_marker :
    ∃ low, blockBeforeGroup.lower 0 Offset.zero = .ok low ∧
      ∃ n ∈ blockBeforeGroup.nodes, ∃ e ∈ low.elements, n.id = "a" ∧
        blockBeforeGroup.Emits 0 Offset.zero n e ∧ none ∈ n.sides ∧
        ¬ ∀ id h, e.Cites none id (some h) ↔ blockBeforeGroup.ChainPin n none id h := by
  have hout : (blockBeforeGroup.lower 0 Offset.zero).toOption.any (fun low =>
      decide (∃ e ∈ low.elements, e.localId = 4 ∧ ¬ e.Cites none 2 (some "OUT"))) = true := by
    decide +kernel
  have hnode : ∀ n ∈ blockBeforeGroup.nodes, n.numericId = 4 → n.id = "a" ∧ none ∈ n.sides := by
    decide +kernel
  cases hlow : blockBeforeGroup.lower 0 Offset.zero with
  | error cause => rw [hlow] at hout; cases hout
  | ok low =>
    rw [hlow] at hout
    obtain ⟨e, he, hid, hcite⟩ := of_decide_eq_true hout
    obtain ⟨n, hn⟩ := (Rung.mem_elements_of_lower hlow).1 he
    have hnid : n.numericId = 4 := by rw [← hid, hn.localId.1]
    obtain ⟨hname, hside⟩ := hnode n hn.1 hnid
    refine ⟨low, rfl, n, hn.1, e, he, hname, hn, hside, fun hall => hcite ((hall 2 "OUT").2 ?_)⟩
    have hfirst : blockBeforeGroup.Leads blockBeforeGroup.nodes[1] ⟨"add", "OUT", "open", "in"⟩
        blockBeforeGroup.nodes[2] := ⟨by decide, rfl, rfl⟩
    have hlast : blockBeforeGroup.Leads blockBeforeGroup.nodes[2] ⟨"open", "out", "a", "in"⟩
        blockBeforeGroup.nodes[3] := ⟨by decide, rfl, rfl⟩
    exact ⟨_, _, _, _, rfl, .pass (.edge hfirst) rfl hlast, hname.symm, nofun, rfl, rfl⟩

/-- The same contact, as a case of the general statement. -/
theorem contact_in_group_cited_pins_iff :
    ∃ n ∈ blockBeforeGroup.nodes, ∃ e, n.id = "a" ∧
      blockBeforeGroup.Emits 0 Offset.zero n e ∧ none ∈ n.sides ∧
        (∀ id h, e.Cites none id (some h) ↔
          blockBeforeGroup.DirectPin n none id h ∨ blockBeforeGroup.MainPin n none id h) ∧
        ((∀ id h, e.Cites none id (some h) ↔ blockBeforeGroup.ChainPin n none id h) ↔
          (∀ id h, blockBeforeGroup.MarkerPin n none id h →
            blockBeforeGroup.DirectPin n none id h ∨ blockBeforeGroup.MainPin n none id h) ∧
          ∀ id h, blockBeforeGroup.MainPin n none id h →
            blockBeforeGroup.DirectPin n none id h ∨ blockBeforeGroup.MarkerPin n none id h) := by
  have hok : (blockBeforeGroup.lower 0 Offset.zero).toOption.isSome = true := by decide +kernel
  cases hlow : blockBeforeGroup.lower 0 Offset.zero with
  | error cause => rw [hlow] at hok; cases hok
  | ok low =>
    have hm : blockBeforeGroup.nodes[3] ∈ blockBeforeGroup.nodes := List.getElem_mem _
    obtain ⟨e, he⟩ := Rung.exists_emits_of_lower hlow hm rfl
    have hside : none ∈ blockBeforeGroup.nodes[3].sides := List.mem_singleton_self _
    obtain ⟨hpins, hiff, -⟩ := cited_pins_iff he hside
    exact ⟨_, hm, e, rfl, he, hside, hpins, hiff⟩

end LadderDiagram
