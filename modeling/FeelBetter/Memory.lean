import Mathlib.Data.Int.Notation
import Mathlib.Data.String.Defs

/-!
# Memories

The data the application moves around: the memory a user composes
(`LocalMemory`), the memory read back from the cloud (`CloudMemory`), and the
emoji that stands for a sentiment. Dates are instants on a line, images are
known only through the bytes of their PNG form.
-/

namespace FeelBetter

/-- The identifier of a Firestore document, unique over all users. -/
abbrev DocumentID := String

/-- The identifier of a signed-in user, `currentUser!.uid`. -/
abbrev Uid := String

/-- An instant. `Timestamp(date:)` and `dateValue()` are inverse to each other,
so one type serves both. -/
abbrev Date := ℤ

/-- The bytes of a file. -/
abbrev Data := List UInt8

/-- A download address handed out by Storage. -/
abbrev URL := String

/-- What a failed request reports. -/
abbrev RequestError := String

/-- Swift's `Result<α, Error>`. -/
abbrev Result (α : Type) := Except RequestError α

/-- An image, seen through `pngData()`. -/
structure UIImage where
  /-- The PNG form of the image, `nil` where it has none. -/
  pngData : Option Data
  deriving DecidableEq

/-- `ImageSuggestionProvider.ImageSuggestion`: an image that is suggested for a memory. -/
structure ImageSuggestion where
  image : UIImage
  description : String
  deriving DecidableEq

/-- A memory as composed on the device. -/
structure LocalMemory where
  title : String
  content : String
  sentiment : ℤ
  saveDate : Date
  image : Option UIImage
  deriving DecidableEq

/-- `memory.image?.pngData()`: the bytes that are uploaded for a memory. -/
def LocalMemory.imageData (memory : LocalMemory) : Option Data :=
  memory.image.bind UIImage.pngData

/-- A memory as read back from the cloud. -/
structure CloudMemory where
  documentID : DocumentID
  title : String
  content : String
  sentiment : ℤ
  tags : List String
  saveDate : Date
  imageURL : Option URL
  deriving DecidableEq

/-- `MemoryType.sentimentEmoji`: the face shown for a sentiment. -/
def sentimentEmoji (sentiment : ℤ) : String :=
  if sentiment < 20 then "😭"
  else if sentiment < 40 then "☹️"
  else if sentiment < 60 then "😐"
  else if sentiment < 80 then "🙂"
  else "😄"

/-- A memory without an image. -/
def sampleMemory (saveDate : Date) : LocalMemory where
  title := "Good day"
  content := "It feels good today."
  sentiment := 70
  saveDate
  image := none

end FeelBetter
