import OriginCache.Foundation.Tables

/-! A watch channel: one stored value with a version, and for each receiver the
version it last saw. A send that finds no receiver leaves the value as it was. -/

namespace OriginCache.Foundation.Watch
open Tables

structure Channel (ρ α : Type) where
  value : α
  version : Nat
  seen : Table ρ Nat

section Sending
variable {ρ α : Type}

def Channel.new (value : α) : Channel ρ α := ⟨value, 0, ∅⟩

def Channel.heard (channel : Channel ρ α) : Bool := !channel.seen.entries.isEmpty

def Channel.send (channel : Channel ρ α) (value : α) : Channel ρ α :=
  if channel.heard then { channel with value := value, version := channel.version + 1 } else channel

theorem heard_of_mem (channel : Channel ρ α) (receiver : ρ) (member : receiver ∈ channel.seen) :
    channel.heard = true := by
  unfold Channel.heard
  cases entries : channel.seen.entries with
  | nil =>
    have absent : receiver ∉ channel.seen := by
      simp [AList.mem_keys, AList.keys, entries]
    exact (absent member).elim
  | cons head rest => rfl

theorem not_mem_of_unheard (channel : Channel ρ α) (silent : channel.heard = false) (receiver : ρ) :
    receiver ∉ channel.seen := by
  intro member
  rw [heard_of_mem channel receiver member] at silent
  cases silent

theorem unheard_of_not_mem (channel : Channel ρ α) (nobody : ∀ receiver, receiver ∉ channel.seen) :
    channel.heard = false := by
  unfold Channel.heard
  cases entries : channel.seen.entries with
  | nil => rfl
  | cons head rest =>
    apply (nobody head.1 _).elim
    simp [AList.mem_keys, AList.keys, entries, List.keys]

theorem send_heard (channel : Channel ρ α) (value : α) (heard : channel.heard = true) :
    channel.send value = { channel with value := value, version := channel.version + 1 } :=
  if_pos heard

theorem send_unheard (channel : Channel ρ α) (value : α) (silent : channel.heard = false) :
    channel.send value = channel := by
  simp [Channel.send, silent]

@[simp] theorem seen_send (channel : Channel ρ α) (value : α) :
    (channel.send value).seen = channel.seen := by
  unfold Channel.send
  split_ifs <;> rfl

end Sending

section Receiving
variable {ρ α : Type} [DecidableEq ρ]

/-- A new receiver has seen the current value. -/
def Channel.subscribe (channel : Channel ρ α) (receiver : ρ) : Channel ρ α :=
  { channel with seen := channel.seen.insert receiver channel.version }

def Channel.leave (channel : Channel ρ α) (receiver : ρ) : Channel ρ α :=
  { channel with seen := channel.seen.erase receiver }

/-- Whether a wait for a change is over. -/
def Channel.changed (channel : Channel ρ α) (receiver : ρ) : Bool :=
  (channel.seen.lookup receiver).any (· ≠ channel.version)

/-- Waking up marks the current value as seen. -/
def Channel.markSeen (channel : Channel ρ α) (receiver : ρ) : Channel ρ α :=
  channel.subscribe receiver

/-- No receiver has seen a version that is still to come. -/
def Channel.Timely (channel : Channel ρ α) : Prop :=
  ∀ receiver version, channel.seen.lookup receiver = some version → version ≤ channel.version

theorem timely_subscribe (channel : Channel ρ α) (receiver : ρ) (timely : channel.Timely) :
    (channel.subscribe receiver).Timely := by
  intro other version found
  by_cases same : other = receiver
  · subst same
    rw [Channel.subscribe, AList.lookup_insert] at found
    cases found
    exact Nat.le_refl _
  · rw [Channel.subscribe, AList.lookup_insert_ne same] at found
    exact timely other version found

theorem timely_leave (channel : Channel ρ α) (receiver : ρ) (timely : channel.Timely) :
    (channel.leave receiver).Timely := by
  intro other version found
  by_cases same : other = receiver
  · subst same
    rw [Channel.leave, AList.lookup_erase] at found
    cases found
  · rw [Channel.leave, AList.lookup_erase_ne same] at found
    exact timely other version found

theorem timely_send (channel : Channel ρ α) (value : α) (timely : channel.Timely) :
    (channel.send value).Timely := by
  intro receiver version found
  rw [seen_send] at found
  have before := timely receiver version found
  unfold Channel.send
  split_ifs
  · exact Nat.le_succ_of_le before
  · exact before

/-- A send that is heard wakes every receiver. -/
theorem changed_send (channel : Channel ρ α) (value : α) (receiver : ρ) (timely : channel.Timely)
    (member : receiver ∈ channel.seen) : (channel.send value).changed receiver = true := by
  obtain ⟨version, found⟩ := Option.isSome_iff_exists.mp (AList.lookup_isSome.mpr member)
  have before := timely receiver version found
  have heard := heard_of_mem channel receiver member
  rw [Channel.changed, seen_send, found, send_heard channel value heard]
  simp only [Option.any_some, decide_eq_true_eq]
  omega

end Receiving

end OriginCache.Foundation.Watch
