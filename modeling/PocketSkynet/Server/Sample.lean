import PocketSkynet.Server.Requests

/-!
# Sample Values

The people, the channel, the wraps and the messages of the concrete runs that accompany the
general theorems.

## Main definitions

* `alice`, `bob`, `carol`: Three people.
* `team`: A channel.
* `wrapFor`: A wrap for one recipient.
* `note`: A plaintext message.
* `keyed`: The tables of a channel whose two members hold its key.
-/

namespace PocketSkynet

namespace Sample

def alice : WalletAddress := ⟨"0xaaaaaaaaaaaaaaaaaaaaaaaaaaaaaaaaaaaaaaaa", by decide⟩

def bob : WalletAddress := ⟨"0xbbbbbbbbbbbbbbbbbbbbbbbbbbbbbbbbbbbbbbbb", by decide⟩

def carol : WalletAddress := ⟨"0xcccccccccccccccccccccccccccccccccccccccc", by decide⟩

def team : RoomId := ⟨"room_1749652739650_test"⟩

def wrapFor (a : WalletAddress) : KeyWrap :=
  { userAddress := a, encryptedSymmetricKey := "wrapped", ephemeralPublicKey := "04ab",
    encryptionIv := "1a2b3c4d5e6f78901234567890abcdef",
    hmac := "9999999999999999999999999999999999999999999999999999999999999999",
    encVer := 2 }

def note (id : String) (sender : WalletAddress) : NewMessage :=
  { id := ⟨id⟩, sender := sender, content := "hello", msgHash := "9c1185a5c5e9fc54",
    isEncrypted := false, iv := none, hmac := none, encVer := 1, keyVersion := 1,
    parentMessageId := none }

/-- Alice's channel with Bob in it, both holding the key of the first epoch. -/
def keyedTeam : Room :=
  (((Room.create team alice).addMember bob).storeKey (wrapFor alice) 1).storeKey (wrapFor bob) 1

/-- The tables around it. -/
def keyed : Shared :=
  { server := { Server.empty [] with
      rooms := fun id => if id = team then some keyedTeam else none
      users := [alice, bob, carol] }
    streams := [(team, Stream.create 1)] }

end Sample

end PocketSkynet
