import Lakehouse.FileSystem

namespace Lakehouse

structure FileAccess (m : Type → Type) where
  exists? : String → m Bool
  read : String → m (Except FileError ByteArray)
  write : String → ByteArray → m (Except FileError Unit)
  makeDirectories : String → m (Except FileError Unit)

namespace FileSystem

def access : FileAccess (StateM FileSystem) where
  exists? path := return (← get).exists? path
  read path := return (← get).read path
  write path content fs :=
    match fs.write path content with
    | .ok fs => (.ok (), fs)
    | .error e => (.error e, fs)
  makeDirectories path fs := fs.makeAll path

end FileSystem

end Lakehouse
