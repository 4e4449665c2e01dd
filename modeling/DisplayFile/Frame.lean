import DisplayFile.Service
import DisplayFile.Text.Search

/-!
# Framed messages

On a byte stream each message follows a header, whose lines end in a carriage return and a line feed
and which ends with an empty line. The header gives the length of the message in bytes.
-/

namespace DisplayFile

def frame (body : String) : String := s!"Content-Length: {body.utf8ByteSize}\r\n\r\n{body}"

/-- The length that a header line gives, if it gives one. -/
def lineLength? (line : List Char) : Option Nat :=
  let name := line.takeWhile (· ≠ ':')
  let value := (line.dropWhile (· ≠ ':')).drop 1
  if name.map Char.toLower = "content-length".toList then
    (String.ofList (value.filter (· ≠ ' '))).toNat?
  else none

def headerLength? (header : List Char) : Option Nat :=
  ((splitLines header).map dropReturn).findSome? lineLength?

/-- The bytes between the header and the message. -/
def headerEnd : List UInt8 := [13, 10, 13, 10]

/-- Takes the first message off a byte stream. -/
def takeFrame? (bytes : List UInt8) : Option (List UInt8 × List UInt8) :=
  (find? headerEnd bytes).bind fun k =>
    (headerLength? ((bytes.take k).map fun b => Char.ofNat b.toNat)).bind fun length =>
      let rest := bytes.drop (k + headerEnd.length)
      if length ≤ rest.length then some (rest.take length, rest.drop length) else none

theorem length_lt_of_takeFrame? {bytes body rest : List UInt8}
    (h : takeFrame? bytes = some (body, rest)) : rest.length < bytes.length := by
  obtain ⟨k, hk, h⟩ := Option.bind_eq_some_iff.1 h
  obtain ⟨length, -, h⟩ := Option.bind_eq_some_iff.1 h
  have hhead : headerEnd.length ≤ (bytes.drop k).length := (isPrefix_drop_of_find? hk).length_le
  have hfour : headerEnd.length = 4 := rfl
  dsimp only at h
  split at h
  · obtain ⟨-, rfl⟩ : _ ∧ _ = rest := by simpa using h
    simp only [List.length_drop] at hhead ⊢
    omega
  · simp at h

/-- The messages on a byte stream, up to the first that is not complete. -/
def frames (bytes : List UInt8) : List (List UInt8) :=
  match h : takeFrame? bytes with
  | none => []
  | some (body, rest) =>
    have := length_lt_of_takeFrame? h
    body :: frames rest
termination_by bytes.length

/-- What the service sends while it handles a message: publications first, then the reply. -/
def Response.sent (r : Response) : List Json :=
  r.published.map Publication.notification ++ r.reply.toJson?.toList

namespace Service

variable (analysis : Analysis)

/-- The text that answers the bytes of one message, and the service after it, if it reads on. -/
def serveBytes (s : Service) (bytes : List UInt8) : String × Option Service :=
  let incoming := Incoming.ofBytes bytes
  let r := s.receive analysis incoming
  (String.join (r.sent.map fun json => frame json.compact),
    if s.stopsAt incoming then none else some r.service)

/-- All that a service sends while it is fed messages. -/
def conversation (s : Service) : List (List UInt8) → String
  | [] => ""
  | bytes :: rest =>
    match s.serveBytes analysis bytes with
    | (sent, none) => sent
    | (sent, some next) => sent ++ conversation next rest

end Service

end DisplayFile
