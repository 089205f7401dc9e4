import WindowFold.Value.Basic

/-!
Which checks a pass makes, and how it names the locals it declares.
-/

namespace WindowFold

structure Config where
  /-- Refuse frames whose literal facts contradict each other. -/
  checkFrames : Bool
  /-- Refuse code that touches slots of another call, and resets that leave a slot unset. -/
  checkSlots : Bool
  /-- What the names of declared locals start with. -/
  localStem : String
  deriving DecidableEq, Repr

namespace Config

def strict (stem : String) : Config where
  checkFrames := true
  checkSlots := true
  localStem := stem

/-- For engines that validate plans elsewhere. -/
def relaxed (stem : String) : Config where
  checkFrames := false
  checkSlots := false
  localStem := stem

def standard : Config := strict "agg"

/-- A configuration written as a value: its three settings by name, other names being left
alone, or in order. -/
def ofValue? : Value → Option Config
  | .object fields =>
    match fields.lookup "check_frame_bounds", fields.lookup "check_slot_ownership",
        fields.lookup "local_prefix" with
    | some (.bool frames), some (.bool slots), some (.string stem) => some ⟨frames, slots, stem⟩
    | _, _, _ => none
  | .array [.bool frames, .bool slots, .string stem] => some ⟨frames, slots, stem⟩
  | _ => none

end Config
end WindowFold
