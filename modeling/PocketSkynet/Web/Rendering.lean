import PocketSkynet.Lib.WebUrl
import PocketSkynet.Server.MediaNames
import PocketSkynet.Web.Mentions

/-!
# The Body of a Message on the Screen

How the body of a message is cut into what is drawn. The names in it become chips, wherever they
stand. What is left between them is cut at blanks, and at blanks only, and every token is drawn
by itself: the path of an attachment, hosted media, a web address, a wallet address with what
stands behind it, a hashtag, or plain text.

## Main definitions

* `Drawn`, `Piece`: What is drawn, and the part of the text it stands for.
* `attachmentIdIn`, `hostedMediaIn`, `splitUrl`, `isImageUrl`, `isVideoUrl`, `youtubeId`: What a
  token points to.
* `walletIn`, `hashtagOf`: The other kinds of tokens.
* `tokenPieces`, `renderContent`: A token, and a text without names.
* `renderWithMentions`: A text.
-/

namespace PocketSkynet

namespace Bubble

open Utf8

/-- What a piece of a message is drawn as. -/
inductive Drawn where
  | text
  | mention (isMe : Bool)
  | attachment (id : List Char)
  | image (url : List Char) (thumb : Option (List Char))
  | video (url : List Char) (poster : Option (List Char))
  | youtube (id : List Char)
  | link (url : List Char)
  | address (a : WalletAddress)
  | tag (tag : List Char)
deriving DecidableEq, Repr

/-- Something drawn, with the part of the text it stands for. -/
structure Piece where
  drawn : Drawn
  source : List Char
deriving DecidableEq, Repr

/-- The text the pieces stand for. -/
def sources (pieces : List Piece) : List Char := pieces.flatMap Piece.source

/-! ### What a token points to -/

/-- The id inside the path of an attachment. -/
def attachmentIdIn (token : List Char) : Option (List Char) := do
  let rest ← token.dropPrefix? "/api/files/".toList
  let id ← rest.dropSuffix? "/raw".toList
  if !id.isEmpty && size id ≤ 128 && id.all (fun c => c.isAlphanum || c == '_' || c == '-') then
    some id
  else none

/-- The host, the path and the query of a web address. -/
def splitUrl (url : List Char) : Option (List Char × List Char × List Char) := do
  let rest ← (url.dropPrefix? "https://".toList).or (url.dropPrefix? "http://".toList)
  let rest := rest.takeWhile (· ≠ '#')
  let (hostPath, query) := (Decimal.splitOnce '?' rest).getD (rest, [])
  let (host, path) := ((Decimal.splitOnce '/' hostPath).map fun sides =>
    (sides.1, '/' :: sides.2)).getD (hostPath, [])
  let host := (WebUrl.behindLast '@' host).takeWhile (· ≠ ':')
  return (host.map Char.toLower, path, query)

def isHttpUrl (token : List Char) : Bool :=
  "https://".toList.isPrefixOf token || "http://".toList.isPrefixOf token

def imageExtensions : List (List Char) :=
  [".jpg", ".jpeg", ".png", ".webp", ".bmp", ".svg", ".avif", ".gif"].map String.toList

/-- The hosts that only ever serve images. -/
def imageHosts : List (List Char) :=
  ["giphy.com", "tenor.com", "imgur.com", "images.unsplash.com", "images.pexels.com",
    "twimg.com"].map String.toList

def isImageUrl (url : List Char) : Bool :=
  (splitUrl url).any fun parts =>
    imageExtensions.any (·.isSuffixOf (parts.2.1.map Char.toLower)) ||
      imageHosts.any fun h => parts.1 == h || ('.' :: h).isSuffixOf parts.1

def videoExtensions : List (List Char) := [".mp4", ".webm", ".ogv"].map String.toList

def isVideoUrl (url : List Char) : Bool :=
  (splitUrl url).any fun parts =>
    videoExtensions.any (·.isSuffixOf (parts.2.1.map Char.toLower))

inductive MediaKind where
  | image
  | video
deriving DecidableEq, Repr

/-- The name behind the path of hosted media, which may be written with a host in front. -/
def hostedName (token : List Char) : Option (List Char) :=
  match token.dropPrefix? urlPath with
  | some rest => some rest
  | none => (splitUrl token).bind fun parts => parts.2.1.dropPrefix? urlPath

/-- Whether a token is hosted media, and of which kind. -/
def hostedMediaIn (token : List Char) : Option MediaKind := do
  let name ← hostedName token
  let sides ← rsplitOnce '.' name
  let ext := String.ofList (sides.2.map Char.toLower)
  if size sides.1 ≠ 64 || !sides.1.all isAsciiHexDigit then none
  else if ["png", "jpg", "jpeg", "webp", "gif"].contains ext then some .image
  else if ["mp4", "webm"].contains ext then some .video
  else none

def isYoutubeId (id : List Char) : Bool :=
  size id == 11 && id.all fun c => c.isAlphanum || c == '-' || c == '_'

/-- The id of a video, from any of the shapes of its address. -/
def youtubeId (url : List Char) : Option (List Char) := do
  let (host, path, query) ← splitUrl url
  let id ←
    if host == "youtu.be".toList then
      some ((path.dropWhile (· == '/')).takeWhile (· ≠ '/'))
    else if host == "youtube.com".toList || ".youtube.com".toList.isSuffixOf host then
      if path == "/watch".toList then
        (query.splitOn '&').findSome? fun kv => kv.dropPrefix? "v=".toList
      else
        ((path.dropPrefix? "/embed/".toList).or (path.dropPrefix? "/shorts/".toList)).map
          fun rest => rest.takeWhile (· ≠ '/')
    else none
  if isYoutubeId id then some id else none

/-- What a web address is drawn as. -/
def drawUrl (token : List Char) : Drawn :=
  match youtubeId token with
  | some id => .youtube id
  | none =>
      if isImageUrl token then .image token none
      else if isVideoUrl token then .video token none
      else .link token

def thumbnail (url : List Char) : List Char := url ++ "/thumbnail".toList

def drawHosted (token : List Char) : MediaKind → Drawn
  | .image => .image token (some (thumbnail token))
  | .video => .video token (some (thumbnail token))

/-- What a token that points somewhere is drawn as. -/
def targetOf (token : List Char) : Option Drawn :=
  match attachmentIdIn token with
  | some id => some (.attachment id)
  | none =>
      match hostedMediaIn token with
      | some kind => some (drawHosted token kind)
      | none => if isHttpUrl token then some (drawUrl token) else none

/-! ### Tokens -/

def isTrailing (c : Char) : Bool :=
  ['.', ',', ';', ':', '!', '?', ')', ']', '"', '\''].contains c

/-- A token without the punctuation at its end. -/
def addressHead (token : List Char) : List Char := token.rdropWhile isTrailing

/-- A wallet address and the punctuation behind it. -/
def walletIn (token : List Char) : Option (WalletAddress × List Char) :=
  let head := addressHead token
  match WalletAddress.new (String.ofList head) with
  | .ok a => some (a, token.drop head.length)
  | .error _ => none

variable (T : CharTables) (alphabetic : Char → Bool)

/-- The tag of a hashtag. -/
def hashtagOf (token : List Char) : Option (List Char) := do
  let rest ← token.dropPrefix? ['#']
  let tag := (rest.takeWhile fun c => T.alphanumeric c || c == '_' || c == '-').flatMap T.lower
  if tag.isEmpty || !tag.any alphabetic || 64 < tag.length then none else some tag

/-- What is drawn for a token. The chip of an address stands for the address only, without the
    white space that was taken off when it was read. -/
def tokenPieces (token : List Char) : List Piece :=
  match targetOf token with
  | some drawn => [⟨drawn, token⟩]
  | none =>
      match walletIn token with
      | some (a, tail) =>
          ⟨.address a, trim (addressHead token)⟩ :: if tail.isEmpty then [] else [⟨.text, tail⟩]
      | none =>
          match hashtagOf T alphabetic token with
          | some tag => [⟨.tag tag, token⟩]
          | none => [⟨.text, token⟩]

def blank : Piece := ⟨.text, [' ']⟩

/-- What is drawn for a text without names. -/
def renderContent (text : List Char) : List Piece :=
  List.intercalate [blank] ((text.splitOn ' ').map (tokenPieces T alphabetic))

/-! ### Names -/

/-- Whether a name is one of the viewer's. To look behind the `@` is a panic if a character does
    not end there. -/
def isMe (handles : List (List Char)) (label : List Char) : Option Bool :=
  if handles.isEmpty then some false
  else
    (splitAt label 1).map fun sides =>
      handles.any fun h => sides.2.map Char.toLower == h.map Char.toLower

/-- What is drawn for the text between two bytes, if there is any. -/
def drawGap (text : List Char) (cursor stop : ℕ) : Option (List Piece) :=
  if cursor < stop then (slice text cursor stop).map (renderContent T alphabetic) else some []

/-- The loop of `renderWithMentions`, which has drawn everything up to a byte. -/
def drawSpans (handles : List (List Char)) (text : List Char) :
    ℕ → List (ℕ × ℕ) → Option (List Piece)
  | cursor, [] => drawGap T alphabetic text cursor (size text)
  | cursor, span :: spans => do
      let gap ← drawGap T alphabetic text cursor span.1
      let label ← slice text span.1 span.2
      let me ← isMe handles label
      let more ← drawSpans handles text span.2 spans
      return gap ++ ⟨.mention me, label⟩ :: more

/-- What is drawn for a text. A slice that is not between characters is a panic. -/
def renderWithMentions (text : List Char) (names : List String) (handles : List (List Char)) :
    Option (List Piece) :=
  let spans := Composer.highlightSpans T text names
  if spans.isEmpty then some (renderContent T alphabetic text)
  else drawSpans T alphabetic handles text 0 spans

end Bubble

end PocketSkynet
