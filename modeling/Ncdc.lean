import Ncdc.CString
import Ncdc.Regex
import Ncdc.Base32
import Ncdc.Xml
import Ncdc.Hub.User
import Ncdc.Hub.Session
import Ncdc.Hub.Nmdc
import Ncdc.Hub.Roster
import Ncdc.Hub.Fatal
import Ncdc.Hub.MyInfo
import Ncdc.Hub.AdcState
import Ncdc.Hub.AdcInfo
import Ncdc.Cc.Session
import Ncdc.Cc.Timers
import Ncdc.Cc.Ops
import Ncdc.Cc.Nicks
import Ncdc.Cc.Adcget
import Ncdc.Cc.Slots
import Ncdc.Cc.Escape
import Ncdc.Hub.Lifecycle
import Ncdc.Db.Queue
import Ncdc.Db.Pack
import Ncdc.Db.Hash
import Ncdc.Db.Store
import Ncdc.FileList.Node
import Ncdc.FileList.View
import Ncdc.FileList.Walk
import Ncdc.FileList.Graft
import Ncdc.FileList.Edit
import Ncdc.FileList.Copy
import Ncdc.FileList.Tree
import Ncdc.FileList.Save
import Ncdc.FileList.Load
import Ncdc.FileList.RoundTrip
import Ncdc.FileList.Accept
import Ncdc.FileList.SaveFile
import Ncdc.FileList.Path
import Ncdc.FileList.Browse
import Ncdc.Config.Settings
import Ncdc.Config.Oset
import Ncdc.Config.Complete
import Ncdc.Hub.Suggest
import Ncdc.FileList.Search
import Ncdc.Hub.Search
