import AlertRules.Proofs.Json.Reread
import AlertRules.Proofs.RulesFile.Reading

/-!
# AlertRules.Proofs.RulesFile.Rereading — reading rules does not depend on numbers

No field of a rule set is a number.  So a value from which rules are read is still one when each of its
numbers has been read again (`Ruleset.blind_read`).  That is put together like the reading itself: a
reader is **blind** if it goes on reading then, and the ways to build readers keep that.
-/

namespace AlertRules.Json

variable {α β : Type}

/-- What can be read can still be read when its numbers have been read again. -/
def Blind (read : Json → Except Refusal α) : Prop :=
  ∀ j a, read j = .ok a → ∃ a', read j.reread = .ok a'

/-- The record can still be read when the numbers in its fields have been read again. -/
def Record.Blind (r : Record Json α) : Prop :=
  ∀ lookup lookup' : Lookup Json,
    (∀ name o, lookup.get name = .ok o → lookup'.get name = .ok (o.map reread)) →
      ∀ a, r.build lookup = .ok a → ∃ a', r.build lookup' = .ok a'

namespace Record

theorem Blind.map {r : Record Json α} (hr : r.Blind) (f : α → β) : Record.Blind (f <$> r) := by
  intro lookup lookup' h b hb
  obtain ⟨a, ha, -⟩ := build_map_eq_ok_iff.mp hb
  obtain ⟨a', ha'⟩ := hr lookup lookup' h a ha
  exact ⟨f a', build_map_eq_ok_iff.mpr ⟨a', ha', rfl⟩⟩

theorem Blind.seq {f : Record Json (α → β)} {r : Record Json α} (hf : f.Blind) (hr : r.Blind) :
    Record.Blind (f <*> r) := by
  intro lookup lookup' h b hb
  obtain ⟨g, a, hg, ha, -⟩ := build_seq_eq_ok_iff.mp hb
  obtain ⟨g', hg'⟩ := hf lookup lookup' h g hg
  obtain ⟨a', ha'⟩ := hr lookup lookup' h a ha
  exact ⟨g' a', build_seq_eq_ok_iff.mpr ⟨g', a', hg', ha', rfl⟩⟩

theorem blind_withDefault (name : String) (value : α) {read : Json → Except Refusal α}
    (hread : Json.Blind read) : (withDefault name value read).Blind := by
  intro lookup lookup' h a ha
  unfold withDefault at ha ⊢
  dsimp only at ha ⊢
  cases hget : lookup.get name with
  | error e =>
    rw [hget] at ha
    exact absurd ha (by simp)
  | ok o =>
    rw [hget] at ha
    rw [h name o hget]
    cases o with
    | none => exact ⟨value, rfl⟩
    | some d => exact hread d a ha

theorem memberNamed_reread {members : List (String × Json)} {name : String} {o : Option Json}
    (h : memberNamed members name = .ok o) :
    memberNamed (Entries.mapValues reread members) name = .ok (o.map reread) := by
  have hfilter : (Entries.mapValues reread members).filter (·.1 == name) =
      Entries.mapValues reread (members.filter (·.1 == name)) := List.filter_map
  rw [memberNamed] at h ⊢
  rw [hfilter]
  split at h
  · rename_i heq
    obtain rfl := Except.ok.inj h
    rw [heq]
    rfl
  · rename_i heq
    obtain rfl := Except.ok.inj h
    rw [heq]
    rfl
  · exact absurd h (by simp)

/-- A record is read from an object or a list, whose parts may be read again. -/
theorem Blind.read {r : Record Json α} (hr : r.Blind) (name : String) : Json.Blind (r.read name) := by
  intro j a ha
  cases j with
  | obj members =>
    rw [reread_obj]
    obtain ⟨a', ha'⟩ := hr _ ⟨memberNamed (Entries.mapValues reread members), .missingField⟩
      (fun _ _ => memberNamed_reread) a (ofMembers_eq_ok_iff.mp ha)
    exact ⟨a', ofMembers_eq_ok_iff.mpr ha'⟩
  | arr items =>
    rw [reread_arr]
    obtain ⟨hbuild, hlength⟩ := ofItems_eq_ok_iff.mp ha
    obtain ⟨a', ha'⟩ := hr _ (r.itemLookup name (items.map reread)) (fun field o ho => by
      show Except.ok (items.map Json.reread)[r.position field]? = _
      rw [List.getElem?_map, Except.ok.inj ho]) a hbuild
    exact ⟨a', ofItems_eq_ok_iff.mpr ⟨ha', (List.length_map _).symm ▸ hlength⟩⟩
  | _ => exact absurd ha (by simp [Record.read, Source.view, view])

end Record

/-- A map is read again key by key. -/
theorem Blind.map {read : Json → Except Refusal α} (hread : Blind read) : Blind (Read.map read) := by
  have hentries : ∀ (members : List (String × Json)) (m₁ m₂ m : KeyMap α),
      Read.entries read m₁ members = .ok m →
        ∃ m', Read.entries read m₂ (Entries.mapValues reread members) = .ok m' := by
    intro members
    induction members with
    | nil => exact fun _ m₂ _ _ => ⟨m₂, rfl⟩
    | cons e members ih =>
      intro m₁ m₂ m h
      obtain ⟨key, d⟩ := e
      rw [Read.entries] at h
      cases hd : read d with
      | error refusal =>
        rw [hd] at h
        exact absurd h (by simp)
      | ok a =>
        rw [hd] at h
        obtain ⟨a', ha'⟩ := hread d a hd
        show ∃ m', Read.entries read m₂ ((key, d.reread) :: Entries.mapValues reread members) = .ok m'
        rw [Read.entries, ha']
        exact ih _ _ _ h
  intro j m h
  cases j with
  | obj members =>
    rw [reread_obj]
    exact hentries members _ _ m h
  | _ => exact absurd h (by simp [Read.map, Source.view, view])

end AlertRules.Json

namespace AlertRules

open Json (Blind Record)

/-- A list of rules is read from a list or null, whatever stands in the list. -/
theorem KindSet.blind_readRules : Blind readRules := by
  intro j rules h
  cases j with
  | null => exact ⟨rules, h⟩
  | arr items =>
    rw [Json.reread_arr]
    exact ⟨_, readRules_arr _⟩
  | _ => exact absurd h (by simp [readRules, Json.Read.option, Json.Read.list, Json.Source.view,
      Json.view, Except.map])

theorem KindSet.blind_read : Blind KindSet.read := by
  have hkind (name : String) : (Record.withDefault name [] readRules).Blind :=
    Record.blind_withDefault name [] blind_readRules
  exact Record.Blind.read (((((hkind "override").map _).seq (hkind "content")).seq
    (hkind "room")).seq (hkind "sender") |>.seq (hkind "underride")) "KindSet"

/-- Rules are still read when the numbers have been read again. -/
theorem Ruleset.blind_read : Blind Ruleset.read := by
  have hglobal : (Record.withDefault "global" .empty KindSet.read).Blind :=
    Record.blind_withDefault _ _ KindSet.blind_read
  have hdevice : (Record.withDefault "device" .empty (Json.Read.map KindSet.read)).Blind :=
    Record.blind_withDefault _ _ KindSet.blind_read.map
  exact Record.Blind.read ((hglobal.map _).seq hdevice) "Ruleset"

end AlertRules
