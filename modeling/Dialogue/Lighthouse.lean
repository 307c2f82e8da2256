import Dialogue.Workshop.Machine

/-! The sample story: a short walk to a lighthouse. It has named nodes, deferred links, a frozen template that is
shown after every visit to the lamp room, actions with conditions, and a branch at the end. -/
namespace Dialogue.Lighthouse
open Workshop

def words (text : String) : List Fragment := [.literal text]

def later (name : String) : Link := .deferred [.mk (some Machine.argument) none none (.get name)]

def back : Link := .deferred []

def yes : Json := .bool true

def no : Json := .bool false

def one : Json := .number (.integer 1)

def make (i : Nat) : Authoring NodeRef := do
  let shore ← newNamed i "shore"
  let shore ← shore.appendText [.literal "The tide is out. ", .directive (Pace.none.wait 1200),
    .literal "A lighthouse stands at the end of the causeway."]
  let shore ← shore.setEffect "lamp" no
  let gull ← newNode i
  let gull ← gull.appendText [.directive (Pace.none.ms 80), .literal "A gull shrieks somewhere below."]
  let gull ← gull.freeze
  let door ← newNamed i "door"
  let door ← door.appendText (words "The door is heavy and salt-stained.")
  let door ← door.addEffect "knocks" one
  let _ ← shore.linkTo (.node door)
  let knock ← newAction i "Knock again"
  let knock ← knock.appendText (words "You knock. Nobody answers.")
  let _ ← knock.linkTo back
  let push ← newAction i "Push the door"
  let push ← push.allow "knocks" ">" one
  let door ← door.attachAction knock
  let _ ← door.attachAction push
  let stairs ← push.joinNamed "stairs"
  let stairs ← stairs.appendText (words "Stairs wind upward into the dark.")
  let lampRoom ← stairs.joinNamed "lamp_room"
  let lampRoom ← lampRoom.appendText (words "The lamp room. The great lens is cold.")
  let light ← newAction i "Light the lamp"
  let light ← light.require "lamp" "eq" no
  let light ← light.setEffect "lamp" yes
  let leave ← newAction i "Go back down"
  let lampRoom ← lampRoom.attachAction light
  let _ ← lampRoom.attachAction leave
  let beam ← light.join
  let beam ← beam.appendText [.directive (Pace.none.wait 2000), .literal "The beam sweeps across the water."]
  let beam ← beam.linkTo (.node gull)
  let last ← beam.tail
  let _ ← last.linkTo (.named "lamp_room")
  let _ ← leave.linkTo (later "ending")
  let ending ← newNamed i "ending"
  let ending ← ending.appendText (words "You walk back along the causeway.")
  let ending ← ending.branchOn "lamp" "eq" yes (later "lit_ending")
  let lit ← newNamed i "lit_ending"
  let _ ← lit.appendText (words "Behind you, the light keeps turning.")
  let dark ← ending.join
  let _ ← dark.appendText (words "Behind you, the tower stays dark.")
  return shore

def story : Except StoryError Story := Machine.build (.start {}) (make 0) 0

end Dialogue.Lighthouse
