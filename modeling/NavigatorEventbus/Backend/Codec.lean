import NavigatorEventbus.Bus.Core

/-!
# Codecs of stream entries

The seam between envelopes and the fields of stream entries (`Codec` in `backends/redis_streams.py`).  The
default codec gives an envelope without an id a fresh one; whether it can decode fields does not depend on
that id.
-/

namespace NavigatorEventbus.Bus.Streams

/-- The field and value pairs of a stream entry. -/
abbrev Fields := List (String × String)

/-- `Codec`. An envelope without an id gets the fresh one when it is decoded. -/
structure Codec where
  encode : Envelope → Fields
  decode : String → Fields → Option Envelope
  fresh : ∀ uuid fields, (decode uuid fields).isSome = (decode "" fields).isSome

/-- What `DefaultCodec` decodes. -/
def decodeDefault (py : Readings) (uuid : String) (fields : Fields) : Option Envelope :=
  match DefaultCodec.decode py uuid fields with
  | .ok wire => Envelope.ofWire wire
  | .error _ => none

/-- An envelope with another id. -/
def withId (eventId : Json) (e : EventEnvelope) : EventEnvelope := { e with eventId }

open EventEnvelope in
theorem ofMembers_fresh (py : Readings) (uuid : String) (data : Json) :
    ofMembers py uuid data =
      (ofMembers py "" data).map (withId (EventEnvelope.get data "event_id" (.str uuid))) := by
  simp only [ofMembers, bind, Except.bind]
  cases validateSchemaVersion (EventEnvelope.get data "schema_version" (.int 1)) with
  | error _ => rfl
  | ok version =>
  cases required data "topic" with
  | error _ => rfl
  | ok topic =>
  cases required data "timestamp" with
  | error _ => rfl
  | ok timestamp =>
  dsimp only
  cases parseTimestamp py timestamp with
  | error _ => rfl
  | ok time =>
  dsimp only
  cases py.enum Severity.all Severity.value
      (EventEnvelope.get data "severity" (.int Severity.info.value)) with
  | none => rfl
  | some severity =>
  cases py.enum EventPriority.all EventPriority.value
      (EventEnvelope.get data "priority" (.int EventPriority.normal.value)) with
  | none => rfl
  | some priority =>
  simp only [Option.elim, build]
  split_ifs <;> rfl

theorem isSome_ofWire (e : EventEnvelope) :
    (Envelope.ofWire e).isSome ↔ (∃ s, e.eventId = .str s) ∧ ∃ t, e.topic = .str t := by
  unfold Envelope.ofWire
  split
  · rename_i id t hid ht
    exact iff_of_true rfl ⟨⟨id, hid⟩, t, ht⟩
  · rename_i other
    refine iff_of_false (by simp) ?_
    rintro ⟨⟨s, hs⟩, t, ht⟩
    exact other s t hs ht

theorem get_eventId_isStr (uuid : String) (data : Json) :
    (∃ s, EventEnvelope.get data "event_id" (.str uuid) = .str s) ↔
      ∀ v, data.member "event_id" = some v → ∃ s, v = .str s := by
  unfold EventEnvelope.get
  cases data.member "event_id" with
  | none => simp
  | some v => simp

theorem isSome_decodeDefault (py : Readings) (uuid : String) (fields : Fields) :
    (decodeDefault py uuid fields).isSome = (decodeDefault py "" fields).isSome := by
  unfold decodeDefault DefaultCodec.decode
  cases fields.lookup "envelope" with
  | none => rfl
  | some raw =>
    dsimp only
    split_ifs
    · rfl
    unfold fromJson
    cases Json.parse raw.toList with
    | none => rfl
    | some data =>
      cases data with
      | obj members =>
        simp only [EventEnvelope.fromDict]
        rw [ofMembers_fresh py uuid, ofMembers_fresh py ""]
        cases EventEnvelope.ofMembers py "" (.obj members) with
        | error _ => rfl
        | ok e =>
          rw [Bool.eq_iff_iff]
          show (Envelope.ofWire (withId _ e)).isSome = true ↔ (Envelope.ofWire (withId _ e)).isSome = true
          rw [isSome_ofWire, isSome_ofWire]
          exact and_congr_left' ((get_eventId_isStr uuid _).trans (get_eventId_isStr "" _).symm)
      | _ => rfl

/-- `DefaultCodec`. -/
def defaultCodec (py : Readings) : Codec where
  encode e := DefaultCodec.encode e.wire
  decode := decodeDefault py
  fresh := isSome_decodeDefault py

end NavigatorEventbus.Bus.Streams
