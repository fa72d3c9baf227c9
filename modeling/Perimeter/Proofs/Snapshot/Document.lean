import Perimeter.Proofs.Address.Text
import Perimeter.Proofs.Digest.Collision
import Perimeter.Proofs.Json.Codec
import Perimeter.Proofs.Text.Names
import Perimeter.Snapshot.Document

/-!
The document of a snapshot describes the snapshot. Every type in a snapshot is written in a
codec, and each record is put together from the codecs of its fields. A field that was
written under one name and read under another, or left out where it has a default, would
be in the way of that. So what the digest is taken over tells snapshots apart.
-/

namespace Perimeter

open Json

theorem Address.codec : Codec Address.toJson Address.ofJson? := .parsed Address.ofText?_text

theorem Network.codec : Codec Network.toJson Network.ofJson? := .parsed Network.ofText?_text

theorem Protocol.codec : Codec Protocol.toJson Protocol.ofJson? := .parsed Protocol.ofText?_text

theorem Uuid.codec : Codec Uuid.toJson Uuid.ofJson? := .parsed Uuid.ofText?_text

theorem Scope.codec : Codec Scope.toJson Scope.ofJson? where
  plain scope := by
    cases scope with
    | global => exact .text "global"
    | device id => exact .record (by simp [Plain.text])
  read_write scope := by
    cases scope with
    | global => rfl
    | device id => simp [toJson, ofJson?, case?_record, text?_ofText]

theorem Action.codec : Codec Action.toJson Action.ofJson? where
  plain action := .text action.text
  read_write action := by cases action <;> rfl

/-- Literals are told from references by the name of their kind. -/
theorem Entry.codec {Literal : Type} {kind : String} {write : Literal → Json}
    {read : Decoder Literal} (h : Codec write read) (hkind : kind ≠ "book") :
    Codec (Entry.toJson kind write) (Entry.ofJson? kind read) where
  plain e := by
    cases e with
    | literal item => exact .record (by simp [h.plain])
    | book name => exact .record (by simp [Plain.text])
  read_write e := by
    cases e with
    | literal item => simp [toJson, ofJson?, case?_record, h.read_write]
    | book name => simp [toJson, ofJson?, case?_record, text?_ofText, hkind.symm]

theorem Book.codec {Literal : Type} {write : Entry Literal → Json}
    {read : Decoder (Entry Literal)} (h : Codec write read) :
    Codec (Book.toJson write) (Book.ofJson? read) :=
  .record (by decide) (fun _ => rfl)
    (by simp [Plain.text, Scope.codec.plain, h.list.plain])
    (by simp [text?_ofText, Scope.codec.read_write, h.list.read_write])

theorem PortRange.codec : Codec PortRange.toJson PortRange.ofJson? :=
  .record (by decide) (fun _ => rfl) (by simp [Plain.number]) (by simp [Codec.uint16.read_write])

theorem PortEntry.codec : Codec PortEntry.toJson PortEntry.ofJson? :=
  .record (by decide) (fun _ => rfl)
    (by simp [(Protocol.codec.nullable rfl).plain, PortRange.codec.plain])
    (by simp [(Protocol.codec.nullable rfl).read_write, PortRange.codec.read_write])

theorem NetworkBook.codec : Codec NetworkBook.toJson NetworkBook.ofJson? :=
  Book.codec (Entry.codec Network.codec (by decide))

theorem ServiceBook.codec : Codec ServiceBook.toJson ServiceBook.ofJson? :=
  Book.codec (Entry.codec PortEntry.codec (by decide))

theorem AclRule.codec : Codec AclRule.toJson AclRule.ofJson? :=
  .record (by decide) (fun _ => rfl)
    (by simp [Plain.number, Plain.bool, Action.codec.plain, (Codec.text.nullable rfl).plain,
      (Protocol.codec.nullable rfl).plain])
    (by simp [Codec.uint32.read_write, Codec.bool.read_write, Action.codec.read_write,
      (Codec.text.nullable rfl).read_write, (Protocol.codec.nullable rfl).read_write])

theorem RuleSet.codec : Codec RuleSet.toJson RuleSet.ofJson? :=
  .record (by decide) (fun _ => rfl)
    (by simp [Plain.text, (Codec.text.nullable rfl).plain, Action.codec.plain,
      AclRule.codec.list.plain])
    (by simp [text?_ofText, (Codec.text.nullable rfl).read_write, Action.codec.read_write,
      AclRule.codec.list.read_write])

theorem Interface.codec : Codec Interface.toJson Interface.ofJson? :=
  .record (by decide) (fun _ => rfl)
    (by simp [Plain.text, Network.codec.list.plain])
    (by simp [text?_ofText, Network.codec.list.read_write])

theorem Zone.codec : Codec Zone.toJson Zone.ofJson? :=
  .record (by decide) (fun _ => rfl)
    (by simp [Plain.text, Codec.text.list.plain, (Codec.text.nullable rfl).plain])
    (by simp [text?_ofText, Codec.text.list.read_write, (Codec.text.nullable rfl).read_write])

theorem Route.codec : Codec Route.toJson Route.ofJson? :=
  .record (by decide) (fun _ => rfl)
    (by simp [Network.codec.plain, (Address.codec.nullable rfl).plain,
      (Codec.text.nullable rfl).plain])
    (by simp [Network.codec.read_write, (Address.codec.nullable rfl).read_write,
      (Codec.text.nullable rfl).read_write])

theorem Adjacency.codec : Codec Adjacency.toJson Adjacency.ofJson? :=
  .record (by decide) (fun _ => rfl)
    (by simp [Plain.text, Plain.bool])
    (by simp [text?_ofText, Codec.bool.read_write])

theorem Device.codec : Codec Device.toJson Device.ofJson? :=
  .record (by decide) (fun _ => rfl)
    (by simp [Plain.text, Interface.codec.list.plain, Zone.codec.list.plain,
      RuleSet.codec.list.plain, Route.codec.list.plain, Adjacency.codec.list.plain])
    (by simp [text?_ofText, Interface.codec.list.read_write, Zone.codec.list.read_write,
      RuleSet.codec.list.read_write, Route.codec.list.read_write,
      Adjacency.codec.list.read_write])

namespace Snapshot

theorem codec : Codec Snapshot.toJson Snapshot.ofJson? :=
  .record (by decide) (fun _ => rfl)
    (by simp [(Uuid.codec.nullable rfl).plain, Device.codec.list.plain,
      NetworkBook.codec.list.plain, ServiceBook.codec.list.plain])
    (by simp [(Uuid.codec.nullable rfl).read_write, Device.codec.list.read_write,
      NetworkBook.codec.list.read_write, ServiceBook.codec.list.read_write])

/-- The document of a snapshot describes that snapshot. -/
theorem ofText?_canonicalText (s : Snapshot) : ofText? s.canonicalText = some s :=
  codec.read?_compactText s

/-- No two snapshots have one document, since each is read back from its own. -/
theorem canonicalText_injective : Function.Injective canonicalText := by
  intro s t h
  have hs := s.ofText?_canonicalText
  rw [h, t.ofText?_canonicalText] at hs
  exact (Option.some.inj hs).symm

/-- The written form of a snapshot loses nothing: it is read back as the snapshot, so only
the snapshot itself is written that way, and another one has its digest only where two
byte strings with one hash have been found. -/
theorem canonicalText_faithful (s : Snapshot) :
    ofText? s.canonicalText = some s ∧
      ∀ t : Snapshot, (t.canonicalText = s.canonicalText ↔ t = s) ∧
        (t.digest = s.digest ↔
          t = s ∨ Blake3.Collides t.canonicalText.toUTF8.toList s.canonicalText.toUTF8.toList) := by
  refine ⟨s.ofText?_canonicalText, fun t => ⟨canonicalText_injective.eq_iff, ?_⟩⟩
  rw [digest, digest, Blake3.hashText_eq_iff, canonicalText_injective.eq_iff]

end Snapshot

end Perimeter
