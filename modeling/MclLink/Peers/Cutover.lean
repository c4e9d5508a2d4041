import MclLink.Peers.Refinement

/-!
# Ordinary traffic during the cutover

From its commit until the confirmation a contact does not know where its peer is, and sends no
ordinary traffic. That is enough for none ever to be sent where the peer does not expect it.
-/

namespace MclLink

open LabelledRun

/-- The transport of ordinary traffic, unless it is quiesced. -/
def MclContact.dataTransport (c : MclContact) : Option UInt8 :=
  match mclContactDataTransport c (some 0) (some false) with
  | (.ok, some t, some false) => some t
  | _ => none

/-- Ordinary traffic is quiesced. -/
def MclContact.quiesced (c : MclContact) : Bool :=
  (mclContactDataTransport c (some 0) (some false)).2.2 = some true

/-- The transports on which a contact expects traffic: the active one, and that of its controls while
it does not know whether the peer has moved there. -/
def MclContact.Expects (c : MclContact) (t : UInt8) : Prop :=
  c.dataTransport = some t ∨
    (c.quiesced = true ∧ (t = c.activeTransport ∨ t = c.controlTransport))

variable {c : MclContact} {p q : MclPeer} {t : UInt8}

private theorem MclContact.dataTransport_eq_some : c.dataTransport = some t ↔
    (c.state ≠ .none ∧ c.state ≠ .closed ∧ c.state ≠ .committing) ∧ c.activeTransport = t := by
  cases hs : c.state <;> simp [MclContact.dataTransport, mclContactDataTransport, hs]

private theorem MclContact.quiesced_iff : c.quiesced = true ↔ c.state = .committing := by
  cases hs : c.state <;> simp [MclContact.quiesced, mclContactDataTransport, hs]

private theorem MclPeer.expects_of_agree
    (hopen : q.contact.state ≠ .none ∧ q.contact.state ≠ .closed)
    (h : p.contact.activeTransport = q.contact.activeTransport ∨ q.Awaits p)
    (ht : p.contact.activeTransport = t) : q.contact.Expects t := by
  subst ht
  by_cases hs : q.contact.state = .committing
  · refine Or.inr ⟨MclContact.quiesced_iff.mpr hs, ?_⟩
    rcases h with hsame | ⟨-, -, hmoved, -⟩
    · exact Or.inl hsame
    · have hprogress := (mclContactMigrationInProgress_iff q.contact).mpr (by tauto)
      rw [MclContact.controlTransport, mclContactControlTransport_pending hprogress]
      exact Or.inr hmoved
  · rcases h with hsame | ⟨hcommitting, -⟩
    · exact Or.inl (MclContact.dataTransport_eq_some.mpr ⟨⟨hopen.1, hopen.2, hs⟩, hsame.symm⟩)
    · exact absurd hcommitting hs

/-- Whatever the transports do, as long as no peer settles a migration twice and neither contact is
closed, not both peers are quiesced, and the one that sends ordinary traffic sends it on a transport
on which the other one expects it. -/
theorem mclWire_data_expected {s₀ s : MclWire} {tr : List (Event MclWire MclWireLabel)}
    (hstart : s₀.Starts) (run : MclWireRun s₀ tr s)
    (hnew : ∀ ev ∈ tr, ev.before.SettlesNew ev.label)
    (hopen : ∀ y, (s.endpoint y).peer.contact.state ≠ .closed) :
    (¬ ∀ y, (s.endpoint y).peer.contact.quiesced = true) ∧
      ∀ y t, (s.endpoint y).peer.contact.dataTransport = some t →
        (s.endpoint y.other).peer.contact.Expects t := by
  have hsound := run.invariant_of (I := MclWire.Sound) hnew hstart.sound
    fun hs hstep hev => hstep.sound hs hev
  have hmoves : ∀ y, (s.pair.peer y).MovesWith (s.pair.peer y.other) := by
    intro y
    rw [MclWire.pair_peer, MclWire.pair_peer]
    exact (hsound.placed y).recoverable.moves
  constructor
  · intro hquiesced
    refine (hsound.placed .left).recoverable.free ?_ (hopen _) ?_
    · exact MclContact.quiesced_iff.mp (hquiesced .left)
    · exact MclContact.quiesced_iff.mp (hquiesced .right)
  · intro y t hdata
    obtain ⟨⟨-, -, hcommitted⟩, ht⟩ := MclContact.dataTransport_eq_some.mp hdata
    have hbegun : (s.endpoint y.other).peer.contact.state ≠ .none := by
      rw [← MclWire.pair_peer]
      exact (hmoves y.other).1.begun
    have hagree := MclPair.transportsAgree hmoves (hopen .left) (hopen .right)
    refine MclPeer.expects_of_agree ⟨hbegun, hopen _⟩ ?_ ht
    cases y with
    | left =>
      rcases hagree with hsame | ⟨hcommitting, -⟩ | hawaits
      · exact Or.inl hsame
      · exact absurd hcommitting hcommitted
      · exact Or.inr hawaits
    | right =>
      rcases hagree with hsame | hawaits | ⟨hcommitting, -⟩
      · exact Or.inl hsame.symm
      · exact Or.inr hawaits
      · exact absurd hcommitting hcommitted

/-- The right peer has followed the commit and sends on the new transport, while the left one still
waits for the confirmation on the old one. -/
theorem mclWire_data_expected_cutover :
    let s₀ : MclWire := ⟨⟨⟨mclContactBegun mclContactRoleInitiator 0xA0 1, false, []⟩, []⟩,
      ⟨⟨mclContactBegun mclContactRoleResponder 0xB0 1, false, []⟩, []⟩⟩
    ∃ tr s, MclWireRun s₀ tr s ∧ s.left.peer.contact.activeTransport = 1 ∧
      s.left.peer.contact.dataTransport = none ∧
      s.right.peer.contact.dataTransport = some 2 ∧ s.left.peer.contact.Expects 2 := by
  intro s₀
  let carriage : MclCarriage := ⟨1, 0x12, 0xA0, 0, 0, 0, Or.inr rfl, rfl, by decide⟩
  have hstart : s₀.Starts := MclWire.starts_begun 0xA0 0xB0 (by decide)
  have hmoved : ((script MclPair.perform s₀.pair (mclMigrationTurns.take 9)).map fun t =>
      (t.left.contact.state, t.left.contact.activeTransport, t.left.contact.dataTransport,
        t.right.contact.state, t.right.contact.dataTransport)) =
      some (.committing, 1, none, .active, some 2) := by decide
  obtain ⟨t, ht, hplaces⟩ := Option.map_eq_some_iff.mp hmoved
  simp only [Prod.mk.injEq] at hplaces
  obtain ⟨hleft, hplace, hquiet, hright, hdata⟩ := hplaces
  obtain ⟨tr, s, run, rfl, -, hnew⟩ :=
    hstart.sound.realises_new (Run.of_script ht) (by decide) carriage
  have hleft' : s.left.peer.contact.state = .committing := hleft
  have hright' : s.right.peer.contact.state = .active := hright
  have hexpected := (mclWire_data_expected hstart run hnew
    ((MclSide.forall_iff .left).mpr ⟨by simp [MclWire.endpoint, hleft'],
      by simp [MclWire.endpoint, MclSide.other, hright']⟩)).2 .right 2 hdata
  exact ⟨tr, s, run, hplace, hquiet, hdata, hexpected⟩

end MclLink
