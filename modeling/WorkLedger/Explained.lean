/-
# Errors explained

What every error tells: a tag by which programs tell it from others, a message for a reader,
and the messages of the errors that it wraps.
-/
namespace WorkLedger

/-- Errors that explain themselves. -/
class Explained (ε : Type) where
  /-- The name of the error; those of the errors it wraps follow, each after a dot. -/
  tag : ε → String
  /-- The wording. -/
  message : ε → String
  /-- The messages of the errors it wraps, the outermost first. -/
  causes : ε → List String

end WorkLedger
