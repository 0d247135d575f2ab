import Takos.DurableObjects.SessionRuns

/-!
# What the session object holds

An entry is held while it is in memory or in the storage.  Whatever fails, an
action leaves nothing held that was not held before, save the entry that it
creates, and a deletion that succeeds leaves nothing under its key.
-/

namespace Takos.DurableObjects

open Takos.Foundation

def Holds (object : SessionObject) (kind : EntryKind) (key : Text)
    (entry : Entry) : Prop :=
  object.find kind key = some entry ∨
    object.storage.get? (storageKey kind key) = some entry

def Shrinks (before after : SessionObject) : Prop :=
  ∀ kind key entry, Holds after kind key entry → Holds before kind key entry

theorem Shrinks.refl (object : SessionObject) : Shrinks object object :=
  fun _ _ _ held => held

theorem Shrinks.trans {first second third : SessionObject}
    (left : Shrinks first second) (right : Shrinks second third) :
    Shrinks first third :=
  fun kind key entry held => left kind key entry (right kind key entry held)

section Parts

variable (object : SessionObject) (faults : Faults)

theorem shrinks_schedule (now : Int) :
    Shrinks object (settled (object.scheduleCleanupAlarm faults now)) := by
  obtain ⟨alarm, settles, _⟩ := scheduleCleanupAlarm_cases object faults now
  rw [settles]
  exact fun _ _ _ held => held

theorem shrinks_deleteKeys (keys : List Text) :
    Shrinks object (settled (object.deleteKeys faults keys)) := by
  unfold SessionObject.deleteKeys
  split
  · exact .refl object
  · intro kind key entry held
    rcases held with found | stored
    · exact .inl found
    · right
      simp only [settled, OrderedMap.get?_foldl_delete] at stored
      split at stored
      · cases stored
      · exact stored

theorem shrinks_forget (kind : EntryKind) (key : Text) :
    Shrinks object
      (object.setMemory kind ((object.memory kind).delete key)) := by
  intro other otherKey entry held
  rcases held with found | stored
  · left
    rw [SessionObject.find_setMemory] at found
    split at found
    · rename_i same
      subst same
      rw [OrderedMap.get?_delete] at found
      split at found
      · cases found
      · exact found
    · exact found
  · exact .inr stored

theorem shrinks_deleteEntry (kind : EntryKind) (key : Text) :
    Shrinks object (settled (object.deleteEntry faults kind key)) :=
  (shrinks_forget object kind key).trans (shrinks_deleteKeys _ faults _)

theorem shrinks_forgetExpired (now : Int) :
    Shrinks object (object.forgetExpired now) := by
  intro kind key entry held
  rcases held with found | stored
  · left
    rw [SessionObject.find_forgetExpired, Option.filter_eq_some_iff] at found
    exact found.1
  · exact .inr stored

theorem shrinks_restart : Shrinks object object.restart := by
  intro kind key entry held
  rcases held with found | stored
  · right
    rw [← restart_memory object kind key]
    exact found
  · exact .inr stored

theorem shrinks_alarm {before after : SessionObject} (alarm : Option Int)
    (shrinks : Shrinks before after) :
    Shrinks before { after with alarm := alarm } :=
  shrinks

theorem settled_bind (attempt : Attempted) (rest : SessionObject → Attempted)
    (shrinks : ∀ left, Shrinks left (settled (rest left))) :
    Shrinks (settled attempt) (settled (attempt.bind rest)) := by
  cases attempt with
  | error left => exact .refl left
  | ok left => exact shrinks left

theorem retried_fst (retryAt : Int) (attempt : Attempted) :
    Shrinks (settled attempt) (retried retryAt attempt).1 := by
  cases attempt with
  | error left => exact shrinks_alarm (some retryAt) (.refl left)
  | ok left => exact .refl left

theorem shrinks_runAlarm (now : Int) :
    Shrinks object (settled (object.runAlarm faults now)) := by
  let running : SessionObject := { object with alarm := none }
  have forgotten : Shrinks object (running.forgetExpired now) :=
    shrinks_forgetExpired running now
  apply Shrinks.trans _ (settled_bind _ _ fun left =>
    shrinks_schedule left faults now)
  split
  · exact forgotten.trans (shrinks_deleteKeys _ faults _)
  · exact forgotten

end Parts

theorem create_holds {object : SessionObject} {faults : Faults} {added : Entry}
    {now : Int} {kind : EntryKind} {key : Text} {entry : Entry}
    (held : Holds (settled (object.create faults added now)) kind key entry) :
    Holds object kind key entry ∨
      entry = added ∧ entry.kind = kind ∧ entry.key = key := by
  let remembered : SessionObject :=
    { object.setMemory added.kind
        ((object.memory added.kind).set added.key added) with
      log := .created added :: object.log }
  have inMemory : ∀ entry, remembered.find kind key = some entry →
      object.find kind key = some entry ∨
        entry = added ∧ entry.kind = kind ∧ entry.key = key := by
    intro entry found
    rw [show remembered.find kind key = _ from
      object.find_setMemory added.kind kind
        ((object.memory added.kind).set added.key added) key] at found
    split at found
    · rename_i same
      subst same
      rw [OrderedMap.get?_set] at found
      split at found
      · rename_i same
        cases found
        exact .inr ⟨rfl, rfl, same.symm⟩
      · exact .inl found
    · exact .inl found
  have persisted : settled (remembered.persist faults added.kind added.key) =
        remembered ∨
      settled (remembered.persist faults added.kind added.key) =
        { remembered with
          storage := object.storage.set (storageKey added.kind added.key)
            added } := by
    have read : (remembered.memory added.kind).get? added.key = some added := by
      simp [remembered, SessionObject.setMemory]
    unfold SessionObject.persist SessionObject.put
    rw [read]
    dsimp only
    split
    · exact .inl rfl
    · exact .inr rfl
  have before : Holds (settled (remembered.persist faults added.kind added.key))
      kind key entry :=
    settled_bind _ _ (fun left => shrinks_schedule left faults now) kind key
      entry held
  rcases persisted with same | same
  · rw [same] at before
    rcases before with found | stored
    · rcases inMemory entry found with old | new
      · exact .inl (.inl old)
      · exact .inr new
    · exact .inl (.inr stored)
  · rw [same] at before
    rcases before with found | stored
    · rcases inMemory entry found with old | new
      · exact .inl (.inl old)
      · exact .inr new
    · rw [OrderedMap.get?_set] at stored
      split at stored
      · rename_i sameKey
        cases stored
        obtain ⟨sameKind, sameKey⟩ := storageKey_inj.mp sameKey
        exact .inr ⟨rfl, sameKind.symm, sameKey.symm⟩
      · exact .inl (.inr stored)

theorem perform_holds {object : SessionObject} {action : SessionAction}
    {kind : EntryKind} {key : Text} {entry : Entry}
    (held : Holds (perform object action).1 kind key entry) :
    Holds object kind key entry ∨
      (∃ now scheduled faults, action = .create entry now scheduled faults) ∧
        entry.kind = kind ∧ entry.key = key := by
  cases action with
  | create added now scheduled faults =>
      simp only [perform] at held
      split at held
      · rw [answer_fst] at held
        rcases create_holds held with old | ⟨rfl, ofKind, ofKey⟩
        · exact .inl old
        · exact .inr ⟨⟨now, scheduled, faults, rfl⟩, ofKind, ofKey⟩
      · exact .inl held
  | get other otherKey now faults =>
      left
      simp only [perform] at held
      split at held
      · rw [answer_fst] at held
        exact shrinks_deleteEntry object faults other otherKey kind key entry
          held
      · exact held
  | delete other otherKey faults =>
      left
      simp only [perform, answer_fst] at held
      exact shrinks_deleteEntry
        { object with log := .deleted other otherKey :: object.log } faults other
        otherKey kind key entry held
  | alarm now faults retryAt =>
      left
      have shrinks := (shrinks_runAlarm object faults now).trans
        (retried_fst retryAt _)
      exact shrinks kind key entry held
  | restart => exact .inl (shrinks_restart object kind key entry held)

theorem perform_delete_gone (object : SessionObject) (kind : EntryKind)
    (key : Text) (entry : Entry) :
    ¬Holds (perform object (.delete kind key fun _ => false)).1 kind key
      entry := by
  have forgotten : (object.setMemory kind
      ((object.memory kind).delete key)).find kind key = none := by
    rw [SessionObject.find_setMemory, if_pos rfl, OrderedMap.get?_delete,
      if_pos rfl]
  have deleted : (object.storage.delete (storageKey kind key)).get?
      (storageKey kind key) = none := by
    rw [OrderedMap.get?_delete, if_pos rfl]
  rintro (found | stored)
  · cases forgotten.symm.trans found
  · cases deleted.symm.trans stored

end Takos.DurableObjects
