import ApfsXattr.Basic
import ApfsXattr.Record
import ApfsXattr.Catalog
import ApfsXattr.Volume
import ApfsXattr.Read
import ApfsXattr.Listxattr
import ApfsXattr.Dstream
import ApfsXattr.Set
import ApfsXattr.DeleteAll
import ApfsXattr.Invariant
import ApfsXattr.SetGet
import ApfsXattr.Corruption
import ApfsXattr.Chunks
import ApfsXattr.Bounds
import ApfsXattr.Store
import ApfsXattr.Transaction
import ApfsXattr.Run
import ApfsXattr.Extents
