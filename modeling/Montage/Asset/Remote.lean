import Montage.Hash.Sha256
import Montage.Path
import Montage.Text.Split

/-!
# Remote sources

A source that names a web address is kept in a cache directory under the digest of the address.  The
file keeps the extension of the address's last path segment if that is a short one of plain letters
and digits; what the address holds otherwise does not reach the file's name.
-/

namespace Montage.Asset

/-- The source is a web address. -/
def isRemote (source : String) : Bool :=
  source.startsWith "http://" || source.startsWith "https://"

/-- The characters of an address in front of its query and its fragment. -/
def addressPath (url : List Char) : List Char := url.takeWhile fun c => c != '?' && c != '#'

def lastSegment (path : List Char) : List Char :=
  match Text.cutLast '/' path with
  | some (_, name) => name
  | none => path

def maxExtension : Nat := 5

def isPlainExtension (ext : List Char) : Bool :=
  !ext.isEmpty && ext.length ≤ maxExtension && ext.all Char.isAlphanum

def extension? (url : String) : Option (List Char) :=
  match Text.cutLast '.' (lastSegment (addressPath url.toList)) with
  | some (_, ext) => if isPlainExtension ext then some ext else none
  | none => none

/-- The name of a source that does not depend on what is in it. -/
def key (source : String) : String := Sha256.hex source

def downloadNameChars (url : String) : List Char :=
  Sha256.hexChars url ++ match extension? url with
    | some ext => '.' :: ext
    | none => []

def downloadName (url : String) : String := String.ofList (downloadNameChars url)

/-- Where a remote source is kept. -/
def downloadPath (cacheDir url : String) : String := Path.join cacheDir (downloadName url)

end Montage.Asset
