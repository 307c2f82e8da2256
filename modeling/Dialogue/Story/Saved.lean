import Dialogue.Story.Format
import Dialogue.Story.Validity
import Dialogue.Digest.Md5
import Dialogue.Text.Utf8

/-! Saved stories: the bytes of the JSON text on several lines. Loading takes any JSON text of a story and hands out
the story only if its table is closed. -/
namespace Dialogue

inductive LoadError where
  | notText (fault : Text.Utf8Fault)
  | notStory (fault : Json.Fault)
  | notClosed (error : CompileError)
  deriving DecidableEq, Repr

namespace Story

def saved (s : Story) : String := s.toJson.toLines

def save (s : Story) : ByteArray := s.saved.toUTF8

def read (text : String) : Except LoadError Story := do
  let s ← (decoder.fromText text).mapError .notStory
  s.validate.mapError .notClosed
  return s

def load (bytes : ByteArray) : Except LoadError Story := do
  read (← (Text.decodeUtf8 bytes).mapError .notText)

def digest (s : Story) : String := (Md5.digest s.toJson.toLine.toUTF8).hex

end Story
end Dialogue
